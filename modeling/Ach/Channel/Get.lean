import Ach.Channel.Put

/-! # `ach_get` and `ach_flush`

The read side. A handle has a private cursor: the sequence number it read last and the index slot it
expects the next frame in. Nothing here writes to the channel but the mutex. -/

namespace Ach.Channel.Get

open Ach.Lib.Run Ach.Lib.Word Ach.Channel.Types Ach.Channel.Lock Ach.Channel.Put

/-- The options of `ach_get`. -/
structure AchGetOpts where
  wait : Bool
  last : Bool
  copy : Bool
  deriving DecidableEq, Repr

/-- What `ach_get` gives its caller: the status, the bytes written to the buffer, and the value
stored in `*frame_size`, if one was. -/
structure GetResult where
  status : AchStatus
  bytes : List UInt8
  frameSize : Option ℕ
  deriving DecidableEq, Repr

/-- A result that leaves the caller's buffer and `*frame_size` alone. -/
def GetResult.bare (status : AchStatus) : GetResult := ⟨status, [], none⟩

/-- The copy of the frame of an index entry from the data array. -/
def copyOut (idx : AchIndex) : Exec AchHeader (List UInt8) := do
  let shm ← load
  if wadd idx.offset idx.size < shm.dataSize then memcpyOut idx.offset idx.size
  else do
    let endCnt := wsub shm.dataSize idx.offset
    let a ← memcpyOut idx.offset endCnt
    let b ← memcpyOut 0 (wsub idx.size endCnt)
    pure (a ++ b)

/-- `ach_get_from_offset`. -/
def achGetFromOffset (chan : AchChannel) (indexOffset size : ℕ) :
    Exec AchHeader (GetResult × AchChannel) := do
  let shm ← load
  assert (indexOffset < shm.indexCnt)
  let idx ← indexAt indexOffset
  assert (idx.seqNum ≠ 0)
  assert (idx.offset < shm.dataSize)
  if idx.seqNum < chan.seqNum then pure (.bare .bug, chan)
  else if size < idx.size then pure (⟨.overflow, [], some idx.size⟩, chan)
  else do
    let bytes ← copyOut idx
    let nextIndex ← umod (wadd indexOffset 1) shm.indexCnt
    pure (⟨.ok, bytes, some idx.size⟩, { chan with seqNum := idx.seqNum, nextIndex := nextIndex })

/-- The index slot `ach_get` reads. -/
def readIndex (chan : AchChannel) (opts : AchGetOpts) : Exec AchHeader ℕ := do
  let shm ← load
  if opts.last then lastIndexI shm
  else do
    let e ← indexAt chan.nextIndex
    if e.seqNum = wadd chan.seqNum 1 then pure chan.nextIndex
    else if chan.seqNum = shm.lastSeq then do
      assert (opts.copy = true)
      lastIndexI shm
    else oldestIndexI shm

/-- What `ach_get` does between `rdlock` and `unrdlock`. -/
def getCritical (chan : AchChannel) (size : ℕ) (opts : AchGetOpts) :
    Exec AchHeader (GetResult × AchChannel) := do
  let shm ← load
  assert (chan.seqNum ≤ shm.lastSeq)
  if (chan.seqNum = shm.lastSeq ∧ opts.copy = false) ∨ shm.lastSeq = 0 then do
    assert (opts.wait = false)
    pure (.bare .staleFrames, chan)
  else do
    let i ← readIndex chan opts
    let e ← indexAt i
    let missedFrame := decide (wadd chan.seqNum 1 < e.seqNum)
    let (res, chan') ← achGetFromOffset chan i size
    assert (0 < e.seqNum)
    if res.status = .ok ∧ missedFrame then pure ({ res with status := .missedFrame }, chan')
    else pure (res, chan')

/-- **`ach_get`**, with the waits it goes through if it has to wait. A handle that is not mapped is
not checked for. -/
def achGet (chan : AchChannel) (size : ℕ) (abstime : Bool) (opts : AchGetOpts)
    (waits : List WaitEvent) : Exec AchHeader (GetResult × AchChannel) := do
  let shm ← load
  if chan.mapped = false then stop .fault
  else if checkGuards shm ≠ .ok then pure (.bare (checkGuards shm), chan)
  else do
    let (r, chan) ← rdlock chan opts.wait abstime waits
    if r ≠ .ok then pure (.bare r, chan)
    else do
      let (res, chan') ← getCritical chan size opts
      let r ← unrdlock
      if r ≠ .ok then pure ({ res with status := r }, chan') else pure (res, chan')

/-- What `ach_flush` does between `rdlock` and `unrdlock`. -/
def flushCritical (chan : AchChannel) : Exec AchHeader AchChannel := do
  let shm ← load
  pure { chan with seqNum := shm.lastSeq, nextIndex := shm.indexHead }

/-- **`ach_flush`.** -/
def achFlush (chan : AchChannel) : Exec AchHeader (AchStatus × AchChannel) :=
  if chan.mapped = false then stop .fault
  else do
    let (r, chan) ← rdlock chan false false []
    if r ≠ .ok then pure (r, chan)
    else do
      let chan' ← flushCritical chan
      let r ← unrdlock
      pure (r, chan')

end Ach.Channel.Get
