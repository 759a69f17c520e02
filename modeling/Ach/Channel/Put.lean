import Ach.Channel.Lock

/-! # `ach_put`

Publishing a frame: evict the entry in the head slot if the index is full, evict the oldest entries
until the data array has room, copy the bytes (in two pieces if they run over the end of the data
array) and advance the counters. The stores are in the order of the source, one field or one byte
at a time. -/

namespace Ach.Channel.Put

open Ach.Lib.Run Ach.Lib.Word Ach.Channel.Types Ach.Channel.Lock

/-- `oldest_index_i`. -/
def oldestIndexI (shm : AchHeader) : Exec AchHeader ℕ :=
  umod (wadd shm.indexHead shm.indexFree) shm.indexCnt

/-- `last_index_i`. -/
def lastIndexI (shm : AchHeader) : Exec AchHeader ℕ :=
  umod (wsub (wadd shm.indexHead shm.indexCnt) 1) shm.indexCnt

/-- `free_index`. -/
def freeIndex (i : ℕ) : Exec AchHeader Unit := do
  let e ← indexAt i
  assert (e.seqNum ≠ 0)
  assert (e.size ≠ 0)
  let shm ← load
  assert (shm.indexFree < shm.indexCnt)
  store fun s => { s with dataFree := wadd s.dataFree e.size }
  store fun s => { s with indexFree := wadd s.indexFree 1 }
  storeFields i [fun e => { e with size := 0 }, fun e => { e with offset := 0 },
    fun e => { e with seqNum := 0 }]

/-- Clears the entry the new frame's index entry is to replace. -/
def clearHead : Exec AchHeader Unit := do
  let shm ← load
  if shm.indexFree = 0 then freeIndex shm.indexHead
  else do
    let e ← indexAt shm.indexHead
    assert (e.seqNum = 0)

/-- The loop that clears the entries whose bytes the new frame overlaps. The first argument bounds
the rounds: after `index_cnt` of them every entry is zero and the loop goes round forever. -/
def clearOverlapping (len : ℕ) : ℕ → ℕ → Exec AchHeader Unit
  | 0, _ => do
    let shm ← load
    if shm.dataFree < len then stop .hang else pure ()
  | n + 1, i => do
    let shm ← load
    if shm.dataFree < len then do
      assert (i ≠ shm.indexHead)
      freeIndex i
      let i' ← umod (wadd i 1) shm.indexCnt
      clearOverlapping len n i'
    else pure ()

/-- The copy of the frame to the data array. -/
def copyIn (buf : ℕ → UInt8) (len : ℕ) : Exec AchHeader Unit := do
  let shm ← load
  if len ≤ wsub shm.dataSize shm.dataHead then memcpyIn shm.dataHead buf len
  else do
    let endCnt := wsub shm.dataSize shm.dataHead
    memcpyIn shm.dataHead buf endCnt
    memcpyIn 0 (fun j => buf (endCnt + j)) (wsub len endCnt)

/-- The update of the head entry `idx` and of the counters. -/
def modifyCounts (idx len : ℕ) : Exec AchHeader Unit := do
  store fun s => { s with lastSeq := wadd s.lastSeq 1 }
  let shm ← load
  storeFields idx [fun e => { e with seqNum := shm.lastSeq }, fun e => { e with size := len },
    fun e => { e with offset := shm.dataHead }]
  let dataHead ← umod (wadd shm.dataHead len) shm.dataSize
  store fun s => { s with dataHead := dataHead }
  store fun s => { s with dataFree := wsub s.dataFree len }
  let indexHead ← umod (wadd shm.indexHead 1) shm.indexCnt
  store fun s => { s with indexHead := indexHead }
  store fun s => { s with indexFree := wsub s.indexFree 1 }
  let shm ← load
  assert (shm.indexFree ≤ shm.indexCnt)
  assert (shm.dataFree ≤ shm.dataSize)
  assert (0 < shm.lastSeq)

/-- What `ach_put` does between `wrlock` and `unwrlock`. -/
def putCritical (buf : ℕ → UInt8) (len : ℕ) : Exec AchHeader Unit := do
  let shm ← load
  let idx := shm.indexHead
  clearHead
  let shm ← load
  assert (0 < shm.indexFree)
  let i ← oldestIndexI shm
  clearOverlapping len shm.indexCnt i
  let shm ← load
  assert (len ≤ shm.dataFree)
  copyIn buf len
  modifyCounts idx len

/-- **`ach_put`.** `buf` is the memory at the pointer given, `none` for `NULL`. The status of
`wrlock` is not looked at. -/
def achPut (chan : AchChannel) (buf : Option (ℕ → UInt8)) (len : ℕ) : Exec AchHeader AchStatus :=
  match buf with
  | none => pure .einval
  | some buf =>
    if len = 0 ∨ chan.mapped = false then pure .einval
    else do
      let shm ← load
      if checkGuards shm ≠ .ok then pure (checkGuards shm)
      else if shm.dataSize < len then pure .overflow
      else if len > shm.dataSize then pure .overflow
      else do
        let _ ← wrlock
        putCritical buf len
        unwrlock

end Ach.Channel.Put
