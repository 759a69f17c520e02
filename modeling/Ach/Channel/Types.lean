import Ach.Lib.Ring
import Ach.Lib.Run
import Ach.Lib.Word

/-! # The shared memory block of a channel

The data types of `ach.h`. A channel is one block of shared memory: a header, an index array of
`index_cnt` entries and a data array of `data_size` bytes, separated by guard words. The two arrays
are lists here; every access to them checks its position and is a fault outside the array, so that
a proof that code does not fault is a proof that its accesses are in bounds.

The block holds the synchronization variables too: the process-shared robust mutex and the dirty
flag. `strayUnlocks` is a ghost counter: it counts the calls of `pthread_mutex_unlock` by a caller
that did not hold the mutex. -/

namespace Ach.Channel.Types

open Ach.Lib.Ring Ach.Lib.Run

/-- `enum ach_status`. -/
inductive AchStatus where
  | ok | overflow | invalidName | badShmFile | failedSyscall | staleFrames | missedFrame | timeout
  | eexist | enoent | closed | bug | einval | corrupt | badHeader | eacces | canceled
  deriving DecidableEq, Repr

/-- `ach_index_t`: an entry of the index array. -/
structure AchIndex where
  size : ℕ
  offset : ℕ
  seqNum : ℕ
  deriving DecidableEq, Repr

/-- An all-zero entry. -/
def AchIndex.zero : AchIndex := ⟨0, 0, 0⟩

/-- The state of a robust mutex as the calling process finds it: free, held by the caller, held by
the caller but not yet made consistent after its previous owner died, left behind by a dead owner,
or not usable any more (`ENOTRECOVERABLE`, or any other error of `pthread_mutex_lock`). -/
inductive Mutex where
  | free | held | heldDead | abandoned | unrecoverable | failing
  deriving DecidableEq, Repr

/-- What happens to the mutex when the process that may hold it dies. -/
def Mutex.ownerDies : Mutex → Mutex
  | .held => .abandoned
  | .heldDead => .abandoned
  | m => m

/-- The results of the pthread calls that the code distinguishes. -/
inductive PthreadResult where
  | zero | etimedout | enotrecoverable | eownerdead | eperm | other
  deriving DecidableEq, Repr

/-- `ach_header_t` with the guard words and the two arrays that follow it. -/
structure AchHeader where
  magic : ℕ
  len : ℕ
  indexCnt : ℕ
  dataSize : ℕ
  dataHead : ℕ
  dataFree : ℕ
  indexHead : ℕ
  indexFree : ℕ
  mutex : Mutex
  dirty : Bool
  lastSeq : ℕ
  guardHeader : ℕ
  index : List AchIndex
  guardIndex : ℕ
  data : List UInt8
  guardData : ℕ
  strayUnlocks : ℕ
  deriving DecidableEq, Repr

/-- `ach_channel_t`: a handle. `mapped` is `chan->shm != NULL`. -/
structure AchChannel where
  mapped : Bool
  len : ℕ
  seqNum : ℕ
  nextIndex : ℕ
  cancel : Bool
  deriving DecidableEq, Repr

def achShmMagicNum : ℕ := 0xb07511f3
def achShmGuardHeaderNum : ℕ := 0x1A2A3A4A5A6A7A8A
def achShmGuardIndexNum : ℕ := 0x1B2B3B4B5B6B7B8B
def achShmGuardDataNum : ℕ := 0x1C2C3C4C5C6C7C8C

/-- The guard words and the magic number are as `ach_create` wrote them. -/
def GuardsOk (shm : AchHeader) : Prop :=
  shm.magic = achShmMagicNum ∧ shm.guardHeader = achShmGuardHeaderNum ∧
    shm.guardIndex = achShmGuardIndexNum ∧ shm.guardData = achShmGuardDataNum

instance (shm : AchHeader) : Decidable (GuardsOk shm) := by
  unfold GuardsOk; infer_instance

/-- `check_guards`. -/
def checkGuards (shm : AchHeader) : AchStatus := if GuardsOk shm then .ok else .corrupt

/-! ### Access to the two arrays -/

/-- Reads an index entry. -/
def indexAt (i : ℕ) : Exec AchHeader AchIndex := do
  let shm ← load
  match shm.index[i]? with
  | some e => pure e
  | none => stop .fault

/-- Changes one field of an index entry. -/
def storeIndex (i : ℕ) (f : AchIndex → AchIndex) : Exec AchHeader Unit := do
  let e ← indexAt i
  store fun s => { s with index := s.index.set i (f e) }

/-- Changes fields of an index entry one after the other. -/
def storeFields (i : ℕ) : List (AchIndex → AchIndex) → Exec AchHeader Unit
  | [] => pure ()
  | f :: fs => do
    storeIndex i f
    storeFields i fs

/-- Writes a data byte. -/
def storeByte (p : ℕ) (b : UInt8) : Exec AchHeader Unit := do
  let shm ← load
  if p < shm.data.length then store fun s => { s with data := s.data.set p b } else stop .fault

/-- `memcpy` of `n` bytes of `buf` to the data array at `off`. -/
def memcpyIn (off : ℕ) (buf : ℕ → UInt8) : ℕ → Exec AchHeader Unit
  | 0 => pure ()
  | n + 1 => do
    memcpyIn off buf n
    storeByte (off + n) (buf n)

/-- `memcpy` of `n` bytes of the data array at `off`. -/
def memcpyOut (off n : ℕ) : Exec AchHeader (List UInt8) := do
  let shm ← load
  if off + n ≤ shm.data.length then pure ((shm.data.drop off).take n) else stop .fault

section
variable {shm : AchHeader} (dbg : Bool)

theorem out_indexAt {i : ℕ} {e : AchIndex} (h : shm.index[i]? = some e) :
    out (indexAt i) dbg shm = .ok (e, shm) := by
  simp [indexAt, h]

theorem out_storeIndex {i : ℕ} {e : AchIndex} (f : AchIndex → AchIndex)
    (h : shm.index[i]? = some e) :
    out (storeIndex i f) dbg shm = .ok ((), { shm with index := shm.index.set i (f e) }) := by
  simp [storeIndex, out_indexAt dbg h]

theorem out_storeFields {i : ℕ} :
    ∀ (fs : List (AchIndex → AchIndex)) {shm : AchHeader} {e : AchIndex}, shm.index[i]? = some e →
      out (storeFields i fs) dbg shm =
        .ok ((), { shm with index := shm.index.set i (fs.foldl (fun e f => f e) e) }) := by
  intro fs
  induction fs with
  | nil =>
    intro shm e h
    obtain ⟨hi, rfl⟩ := List.getElem?_eq_some_iff.mp h
    simp [storeFields]
  | cons f fs ih =>
    intro shm e h
    obtain ⟨hi, -⟩ := List.getElem?_eq_some_iff.mp h
    rw [storeFields, out_bind, out_storeIndex dbg f h, Outcome.bind_ok,
      ih (e := f e) (by simp [hi])]
    simp

theorem out_storeByte {p : ℕ} (b : UInt8) (h : p < shm.data.length) :
    out (storeByte p b) dbg shm = .ok ((), { shm with data := shm.data.set p b }) := by
  simp [storeByte, h]

theorem out_memcpyIn (off : ℕ) (buf : ℕ → UInt8) :
    ∀ n, off + n ≤ shm.data.length →
      out (memcpyIn off buf n) dbg shm =
        .ok ((), { shm with data := blit shm.data off buf n }) := by
  intro n
  induction n with
  | zero =>
    intro _
    rfl
  | succ n ih =>
    intro h
    rw [memcpyIn, out_bind, ih (by omega), Outcome.bind_ok,
      out_storeByte dbg _ (by simp; omega)]
    rfl

theorem out_memcpyOut {off n : ℕ} (h : off + n ≤ shm.data.length) :
    out (memcpyOut off n) dbg shm = .ok ((shm.data.drop off).take n, shm) := by
  simp [memcpyOut, h]

end

end Ach.Channel.Types
