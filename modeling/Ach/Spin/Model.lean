import Ach.Lib.Interleave
import Mathlib.Algebra.Ring.Int.Defs
import Mathlib.Data.Fin.VecNotation

/-! # The SPIN model of a channel

`src/spin/ach.pml` models a channel for the SPIN model checker: processes that put, get and check
the index, and a never claim about the counters. Here it is statement by statement, with its
constants as parameters (`Consts`) and any number of processes of each kind.

A value stored in a bit field is cut to its width (`trunc`). Reading or writing past the end of an
array is an error like a failed assertion, so the statements that index one assert that first. A
`select` of SPIN counts up in steps of its own; it concerns a local variable only, and is one step
here. -/

namespace Ach.Spin.Model

open Ach.Lib.Interleave

/-- The constants. -/
structure Consts where
  indexCnt : ℕ
  dataSize : ℕ
  maxMsgSize : ℕ
  sizeBits : ℕ
  seqNumBits : ℕ
  nMsgs : ℕ

/-- The constants of the file. -/
def Consts.source : Consts := ⟨3, 5, 2, 3, 5, 2 * 3⟩

/-- What a field of `w` bits holds after `v` is stored in it. -/
def trunc (w : ℕ) (v : ℤ) : ℕ := (v % 2 ^ w).toNat

/-- `typedef index`. -/
structure Index where
  size : ℕ
  offset : ℕ
  seqNum : ℕ
  used : Bool
  deriving DecidableEq, Repr

/-- An entry with nothing in it. -/
def Index.zero : Index := ⟨0, 0, 0, false⟩

/-- The global variables. -/
structure Shm where
  shmIdx : List Index
  shmLastSeq : ℕ
  shmIdxHead : ℕ
  shmIdxFree : ℕ
  shmDataHead : ℕ
  shmDataFree : ℕ
  shmData : List UInt8
  shmMutex : Bool
  deriving DecidableEq, Repr

/-- The local variables of the processes. -/
structure Locals where
  buf : List UInt8
  buflen : ℕ
  i : ℕ
  oLast : Bool
  oWait : Bool
  oCopy : Bool
  seqNum : ℕ
  nextIndex : ℕ
  readIdx : ℕ
  missedFrame : Bool
  staleFrames : Bool
  j : ℕ
  deriving DecidableEq, Repr

abbrev State := Shm × Locals

abbrev Code := Prog State

/-! ### Statements -/

/-- `assert`. -/
def check (p : State → Bool) : Code := .exec p id .done

/-- An assignment to a global variable, if what it reads is there. -/
def setShm (ok : State → Bool) (f : Shm → Locals → Shm) : Code :=
  .exec ok (fun s => (f s.1 s.2, s.2)) .done

/-- An assignment to a local variable, if what it reads is there. -/
def setLoc (ok : State → Bool) (f : Shm → Locals → Locals) : Code :=
  .exec ok (fun s => (s.1, f s.1 s.2)) .done

/-- Nothing is indexed. -/
def always : State → Bool := fun _ => true

/-- `if :: (g) -> a :: else -> b fi`. -/
def ifElse (ok : State → Bool) (g : State → Bool) (a b : Code) : Code :=
  .choose ok 2 ![g, fun s => !g s] ![a, b] .done

/-- `printf`, and `skip`. -/
def print : Code := .exec always id .done

/-- The index entry `i`. -/
def Shm.idx (g : Shm) (i : ℕ) : Index := g.shmIdx.getD i .zero

/-- There is an index entry `i s`. -/
def hasIdx (i : State → ℕ) : State → Bool := fun s => decide (i s < s.1.shmIdx.length)

/-- A field of the index entry `i s` is set. -/
def setIdx (i : State → ℕ) (f : State → Index → Index) : Code :=
  .exec (hasIdx i) (fun s => ({ s.1 with
    shmIdx := s.1.shmIdx.set (i s) (f s (s.1.idx (i s))) }, s.2)) .done

/-- `lock`, and `rdlock_wait` with what it waits for. -/
def lock (cond : State → Bool) : Code :=
  .await (fun s => !s.1.shmMutex && cond s) (fun s => ({ s.1 with shmMutex := true }, s.2)) .done

/-- `unlock`. -/
def unlock : Code :=
  .exec (fun s => s.1.shmMutex) (fun s => ({ s.1 with shmMutex := false }, s.2)) .done

section
variable (c : Consts)

/-- `OLDEST_INDEX_I`. -/
def oldestIndexI (s : State) : ℕ := (s.1.shmIdxHead + s.1.shmIdxFree) % c.indexCnt

/-- `LAST_INDEX_I`. -/
def lastIndexI (s : State) : ℕ := (s.1.shmIdxHead + c.indexCnt - 1) % c.indexCnt

/-- `FREE_IDX`. -/
def freeIdx (i : State → ℕ) : Code :=
  check (fun s => hasIdx i s && (s.1.idx (i s)).used) ++
  check (fun s => decide (s.1.shmIdxFree < c.indexCnt)) ++
  .exec (hasIdx i) (fun s => ({ s.1 with
    shmDataFree := trunc c.sizeBits (s.1.shmDataFree + (s.1.idx (i s)).size) }, s.2)) .done ++
  setShm always (fun g _ => { g with shmIdxFree := trunc c.sizeBits (g.shmIdxFree + 1) }) ++
  setIdx i (fun _ e => { e with size := 0 }) ++
  setIdx i (fun _ e => { e with offset := 0 }) ++
  setIdx i (fun _ e => { e with seqNum := 0 }) ++
  setIdx i (fun _ e => { e with used := false })

/-- `MEMCPY` from `buf` to `shm_data`, with the counter `i`. -/
def memcpy (dstoff srcoff length : State → ℤ) : Code :=
  setLoc always (fun _ l => { l with i := 0 }) ++
  .loop (fun s => decide ((s.2.i : ℤ) < length s))
    (.exec (fun s => decide (0 ≤ dstoff s + s.2.i ∧ dstoff s + s.2.i < s.1.shmData.length ∧
        0 ≤ srcoff s + s.2.i ∧ srcoff s + s.2.i < s.2.buf.length))
      (fun s => ({ s.1 with
        shmData := s.1.shmData.set (dstoff s + s.2.i).toNat
          (s.2.buf.getD (srcoff s + s.2.i).toNat 0) }, s.2)) .done ++
    setLoc always (fun _ l => { l with i := trunc 8 (l.i + 1) })) .done

/-! ### `putter` -/

/-- The data of the frame: its sequence number and then something. -/
def fillBuf : Code :=
  setLoc (fun s => decide (0 < s.2.buf.length))
    (fun g l => { l with buf := l.buf.set 0 (UInt8.ofNat (g.shmLastSeq + 1)) }) ++
  setLoc always (fun _ l => { l with i := 1 }) ++
  .loop (fun s => decide (s.2.i < s.2.buflen))
    (setLoc (fun s => decide (s.2.i < s.2.buf.length))
      (fun g l => { l with buf := l.buf.set l.i (UInt8.ofInt (g.shmLastSeq - l.i)) }) ++
    setLoc always (fun _ l => { l with i := trunc 8 (l.i + 1) })) .done

/-- Clears the entry used by the index. -/
def clearHead : Code :=
  ifElse always (fun s => decide (0 = s.1.shmIdxFree)) (freeIdx c fun s => s.1.shmIdxHead)
    (check fun s => hasIdx (fun s => s.1.shmIdxHead) s && !(s.1.idx s.1.shmIdxHead).used)

/-- Clears overlapping entries. -/
def clearOverlapping : Code :=
  .loop (fun s => decide (s.1.shmDataFree < s.2.buflen))
    (check (fun s => decide (s.2.i < c.indexCnt)) ++
    check (fun s => decide (s.2.i ≠ s.1.shmIdxHead)) ++
    check (fun s => hasIdx (fun s => s.2.i) s && decide (0 ≠ (s.1.idx s.2.i).size)) ++
    check (fun s => hasIdx (fun s => s.2.i) s && (s.1.idx s.2.i).used) ++
    freeIdx c (fun s => s.2.i) ++
    setLoc always (fun _ l => { l with i := trunc 8 ((l.i + 1) % c.indexCnt : ℕ) })) .done

/-- Copies the buffer, in two pieces if it has to. -/
def copyIn : Code :=
  ifElse always (fun s => decide ((s.2.buflen : ℤ) ≤ c.dataSize - s.1.shmDataHead))
    (memcpy (fun s => s.1.shmDataHead) (fun _ => 0) (fun s => s.2.buflen))
    (memcpy (fun s => s.1.shmDataHead) (fun _ => 0) (fun s => c.dataSize - s.1.shmDataHead) ++
    memcpy (fun _ => 0) (fun s => c.dataSize - s.1.shmDataHead)
      (fun s => s.2.buflen - (c.dataSize - s.1.shmDataHead)))

/-- Modifies the counts. -/
def modifyCounts : Code :=
  setShm always (fun g _ => { g with shmLastSeq := trunc c.seqNumBits (g.shmLastSeq + 1) }) ++
  setIdx (fun s => s.1.shmIdxHead)
    (fun s e => { e with seqNum := trunc c.seqNumBits s.1.shmLastSeq }) ++
  setIdx (fun s => s.1.shmIdxHead) (fun s e => { e with size := trunc c.sizeBits s.2.buflen }) ++
  setIdx (fun s => s.1.shmIdxHead)
    (fun s e => { e with offset := trunc c.sizeBits s.1.shmDataHead }) ++
  setIdx (fun s => s.1.shmIdxHead) (fun _ e => { e with used := true }) ++
  setShm always (fun g l => { g with
    shmDataHead := trunc c.sizeBits ((g.shmDataHead + l.buflen) % c.dataSize : ℕ) }) ++
  setShm always (fun g l => { g with
    shmDataFree := trunc c.sizeBits ((g.shmDataFree : ℤ) - l.buflen) }) ++
  setShm always (fun g _ => { g with
    shmIdxHead := trunc c.sizeBits ((g.shmIdxHead + 1) % c.indexCnt : ℕ) }) ++
  setShm always (fun g _ => { g with shmIdxFree := trunc c.sizeBits ((g.shmIdxFree : ℤ) - 1) })

/-- What the model has of `ach_put`. -/
def achPut : Code :=
  clearHead c ++
  check (fun s => decide (0 < s.1.shmIdxFree)) ++
  check (fun s => hasIdx (fun s => s.1.shmIdxHead) s && !(s.1.idx s.1.shmIdxHead).used) ++
  setLoc always (fun g l => { l with
    i := trunc 8 ((g.shmIdxHead + g.shmIdxFree) % c.indexCnt : ℕ) }) ++
  clearOverlapping c ++
  check (fun s => decide (s.2.buflen ≤ s.1.shmDataFree)) ++
  check (fun s => hasIdx (fun s => s.1.shmIdxHead) s &&
    decide (0 = (s.1.idx s.1.shmIdxHead).size)) ++
  copyIn c ++
  modifyCounts c

/-- One round of `putter`. -/
def putterRound : Code :=
  .select c.maxMsgSize (fun n s => (s.1, { s.2 with buflen := n + 1 }))
    (check (fun s => decide (s.2.buflen ≤ c.dataSize))) ++
  lock always ++ (fillBuf ++ achPut c) ++ unlock ++
  check (fun s => decide (0 < s.1.shmLastSeq))

/-- **`putter`.** -/
def putter : Code :=
  .loop (fun s => decide (s.1.shmLastSeq < c.nMsgs)) (putterRound c) print

/-! ### `getter` -/

/-- Where the getter was last: anywhere in the index. -/
def lookAnywhere : Code :=
  .select c.indexCnt (fun n s => (s.1, { s.2 with nextIndex := trunc c.sizeBits n }))
    (setLoc (hasIdx fun s => (s.2.nextIndex + c.indexCnt - 1) % c.indexCnt) fun g l => { l with
      seqNum := trunc c.seqNumBits (g.idx ((l.nextIndex + c.indexCnt - 1) % c.indexCnt)).seqNum })

/-- There is nothing new, and nothing to copy. -/
def nothing (s : State) : Bool :=
  (decide (s.2.seqNum = s.1.shmLastSeq) && !s.2.oCopy) || decide (0 = s.1.shmLastSeq)

/-- The next frame is in `next_index`. -/
def nextThere (s : State) : Bool :=
  !s.2.oLast && decide ((s.1.idx s.2.nextIndex).seqNum = s.2.seqNum + 1)

/-- `read_idx` is set. -/
def setRead (i : State → ℕ) : Code :=
  setLoc always (fun g l => { l with readIdx := trunc c.sizeBits (i (g, l)) })

/-- The exceptional cases. -/
def readExceptional : Code :=
  .choose always 3
    ![fun s => decide (s.2.seqNum = s.1.shmLastSeq), fun s => decide (s.2.seqNum ≠ s.1.shmLastSeq),
      fun s => !decide (s.2.seqNum = s.1.shmLastSeq) && !decide (s.2.seqNum ≠ s.1.shmLastSeq)]
    ![check (fun s => s.2.oCopy) ++ setRead c (lastIndexI c), setRead c (oldestIndexI c),
      check (fun _ => false)] .done

/-- The frame to get. -/
def chooseFrame : Code :=
  .choose (hasIdx fun s => s.2.nextIndex) 3
    ![fun s => s.2.oLast, nextThere, fun s => !s.2.oLast && !nextThere s]
    ![setRead c (lastIndexI c), setRead c (fun s => s.2.nextIndex), readExceptional c] .done

/-- The number of the frame at `read_idx`. -/
def readSeq (s : State) : ℕ := (s.1.idx s.2.readIdx).seqNum

/-- An assertion that reads the entry at `read_idx`. -/
def checkRead (p : State → Bool) : Code := check fun s => hasIdx (fun s => s.2.readIdx) s && p s

/-- Frames were missed. -/
def missed (s : State) : Bool := decide (s.2.seqNum + 1 < readSeq s)

/-- Gets the data. -/
def getFrame : Code :=
  ifElse always nothing
    (check (fun s => !s.2.oWait) ++ setLoc always (fun _ l => { l with staleFrames := true }))
    (chooseFrame c ++ checkRead (fun s => decide (0 < readSeq s)) ++
      ifElse (hasIdx fun s => s.2.readIdx) missed
        (setLoc always (fun _ l => { l with missedFrame := true })) print)

/-- `Last always gets last frame`. -/
def validateLast : Code :=
  .choose always 3
    ![fun s => !s.2.staleFrames, fun s => s.2.staleFrames,
      fun s => !(!s.2.staleFrames) && !s.2.staleFrames]
    ![checkRead (fun s => decide (readSeq s = s.1.shmLastSeq)) ++
        check (fun s => decide (s.2.readIdx = lastIndexI c s)),
      check (fun s => decide (s.2.seqNum = s.1.shmLastSeq)) ++ check (fun s => !s.2.oWait),
      check (fun _ => false)] .done

/-- Wait never gets stale frames. -/
def validateWait : Code :=
  check (fun s => !s.2.staleFrames) ++ checkRead (fun s => decide (s.2.seqNum < readSeq s))

/-- Copy gets something, unless the channel is empty and it did not wait. -/
def validateCopy : Code :=
  checkRead (fun s => decide (s.2.seqNum ≤ readSeq s)) ++
  check (fun s => !s.2.staleFrames || (decide (s.1.shmLastSeq = 0) && !s.2.oWait))

def validateStale : Code :=
  check (fun s => !s.2.missedFrame) ++ check (fun s => !s.2.oWait) ++
  check (fun s => decide (s.1.shmLastSeq = s.2.seqNum))

def validateSame : Code := check fun s => s.2.staleFrames || s.2.oCopy

def validateMissed : Code :=
  check (fun s => !s.2.staleFrames) ++
  check (fun s => decide (s.2.seqNum + 1 < s.1.shmLastSeq)) ++
  checkRead (fun s => decide (s.2.seqNum + 1 < readSeq s)) ++
  check (fun s => (!s.2.oLast && decide (s.2.readIdx = oldestIndexI c s)) ||
    (s.2.oLast && decide (s.2.readIdx = lastIndexI c s)))

/-- If there is new data, the getter got it. -/
def validateNew : Code :=
  check (fun s => !s.2.staleFrames) ++ checkRead (fun s => decide (s.2.seqNum < readSeq s))

/-- The guards of the validation. -/
def validateGuard : Fin 7 → State → Bool :=
  ![fun s => s.2.oLast, fun s => s.2.oWait, fun s => s.2.oCopy, fun s => s.2.staleFrames,
    fun s => decide (s.1.shmLastSeq = s.2.seqNum), fun s => s.2.missedFrame,
    fun s => decide (s.2.seqNum < s.1.shmLastSeq)]

/-- The validation: a branch whose guard holds, `skip` if there is none. -/
def validate : Code :=
  .choose always 8
    ![validateGuard 0, validateGuard 1, validateGuard 2, validateGuard 3, validateGuard 4,
      validateGuard 5, validateGuard 6, fun s => decide (∀ n, validateGuard n s = false)]
    ![validateLast c, validateWait, validateCopy, validateStale, validateSame, validateMissed c,
      validateNew, print] .done

/-- The last part of `getter`, in its second section. -/
def getSection : Code :=
  check (fun s => decide (s.2.seqNum ≤ s.1.shmLastSeq)) ++ getFrame c ++ validate c

/-- **`getter`.** -/
def getter : Code :=
  .select 2 (fun n s => (s.1, { s.2 with oLast := decide (n = 1) }))
    (.select 2 (fun n s => (s.1, { s.2 with oWait := decide (n = 1) }))
      (.select 2 (fun n s => (s.1, { s.2 with oCopy := decide (n = 1) })) .done)) ++
  lock always ++ lookAnywhere c ++ unlock ++
  ifElse always (fun s => s.2.oWait) (lock fun s => decide (s.2.seqNum < s.1.shmLastSeq))
    (lock always) ++
  getSection c ++ unlock ++ print

/-! ### `monitor` and the rest -/

/-- The entry `j` places after the head. -/
def headEntry (s : State) : Index := s.1.idx ((s.1.shmIdxHead + s.2.j) % c.indexCnt)

/-- The entry at `j`, and the one after it. -/
def entryJ (s : State) : Index := s.1.idx s.2.j

def entryNext (s : State) : Index := s.1.idx ((s.2.j + 1) % c.indexCnt)

def lastEntry (s : State) : Index := s.1.idx (lastIndexI c s)

def oldestEntry (s : State) : Index := s.1.idx (oldestIndexI c s)

/-- An assertion about the entry `i s`. -/
def checkIdx (i : State → ℕ) (p : State → Bool) : Code := check fun s => hasIdx i s && p s

/-- The used flags. -/
def checkUsed : Code :=
  ifElse always (fun s => decide (s.2.j < s.1.shmIdxFree))
    (checkIdx (fun s => (s.1.shmIdxHead + s.2.j) % c.indexCnt) (fun s => !(headEntry c s).used) ++
      checkIdx (fun s => (s.1.shmIdxHead + s.2.j) % c.indexCnt)
        (fun s => decide (0 = (headEntry c s).size)))
    (checkIdx (fun s => (s.1.shmIdxHead + s.2.j) % c.indexCnt) (fun s => (headEntry c s).used) ++
      checkIdx (fun s => (s.1.shmIdxHead + s.2.j) % c.indexCnt)
        (fun s => decide (0 < (headEntry c s).size)) ++
      checkIdx (fun s => (s.1.shmIdxHead + s.2.j) % c.indexCnt)
        (fun s => decide (0 < (headEntry c s).seqNum)))

/-- The free space, the head of the data, and the ends of the used interval. -/
def checkSpace : Code :=
  checkIdx (fun s => s.2.j) (fun s => decide ((entryJ s).offset % 1 = 0)) ++
  checkIdx (lastIndexI c) (fun s => hasIdx (oldestIndexI c) s &&
    decide (((lastEntry c s).offset + (lastEntry c s).size + s.1.shmDataFree) % c.dataSize =
      (oldestEntry c s).offset)) ++
  checkIdx (lastIndexI c) (fun s =>
    decide (((lastEntry c s).offset + (lastEntry c s).size) % c.dataSize = s.1.shmDataHead)) ++
  check (fun s => decide ((lastIndexI c s + s.1.shmIdxFree + 1) % c.indexCnt = oldestIndexI c s)) ++
  checkIdx (lastIndexI c) (fun s => decide ((lastEntry c s).seqNum = s.1.shmLastSeq))

/-- `j` and `j + 1` are both used. -/
def checkPair : Code :=
  ifElse always (fun s => decide (s.1.shmIdxHead = (s.2.j + 1) % c.indexCnt))
    (check (fun s => decide ((s.2.j + 1) % c.indexCnt = oldestIndexI c s)) ++
      check (fun s => decide (s.2.j = lastIndexI c s)) ++
      check (fun s => decide ((entryNext c s).seqNum + c.indexCnt = (entryJ s).seqNum + 1)) ++
      check (fun s => decide (s.1.shmIdxFree = 0)) ++
      check (fun s => decide (s.1.shmLastSeq = (entryJ s).seqNum)) ++
      check (fun s => decide (((entryJ s).offset + (entryJ s).size + s.1.shmDataFree) % c.dataSize =
        (entryNext c s).offset)))
    (check (fun s => decide ((entryJ s).seqNum + 1 = (entryNext c s).seqNum)) ++
      check (fun s => decide (((entryJ s).offset + (entryJ s).size) % c.dataSize =
        (entryNext c s).offset)))

/-- What `monitor` checks of the channel. -/
def monitorSection : Code :=
  checkUsed c ++ checkSpace c ++
  ifElse (fun s => hasIdx (fun s => s.2.j) s && hasIdx (fun s => (s.2.j + 1) % c.indexCnt) s)
    (fun s => (entryJ s).used && (entryNext c s).used)
    (checkPair c) (check fun s => decide (0 < s.1.shmIdxFree)) ++
  ifElse (hasIdx fun s => s.2.j) (fun s => (entryJ s).used)
    (check fun s => decide ((entryJ s).offset < s.1.shmData.length) &&
      decide ((s.1.shmData.getD (entryJ s).offset 0).toNat = (entryJ s).seqNum)) print

/-- **`monitor`.** -/
def monitor : Code :=
  .select c.indexCnt (fun n s => (s.1, { s.2 with j := n })) .done ++
  check (fun s => decide (s.2.j < c.indexCnt)) ++ lock always ++ monitorSection c ++ unlock

/-- **`consts`.** -/
def consts : Code :=
  check (fun _ => decide ((c.indexCnt : ℤ) < 2 ^ c.sizeBits - 1)) ++
  check (fun _ => decide ((c.dataSize : ℤ) < 2 ^ c.sizeBits - 1))

/-- The kinds of processes. -/
inductive Kind where
  | putter | getter | monitor | consts
  deriving DecidableEq

/-- The program of a process. -/
def Kind.code : Kind → Code
  | .putter => Model.putter c
  | .getter => Model.getter c
  | .monitor => Model.monitor c
  | .consts => Model.consts c

/-- The global variables at the beginning. -/
def initShm : Shm where
  shmIdx := List.replicate c.indexCnt .zero
  shmLastSeq := 0
  shmIdxHead := 0
  shmIdxFree := trunc c.sizeBits c.indexCnt
  shmDataHead := 0
  shmDataFree := trunc c.sizeBits c.dataSize
  shmData := List.replicate c.dataSize 0
  shmMutex := false

/-- The local variables at the beginning. -/
def initLocals : Locals where
  buf := List.replicate c.maxMsgSize 0
  buflen := 0
  i := 0
  oLast := false
  oWait := false
  oCopy := false
  seqNum := 0
  nextIndex := 0
  readIdx := 0
  missedFrame := false
  staleFrames := false
  j := 0

/-- **The system at the beginning**, with a process of each of the given kinds. -/
def init {ι : Type} (kind : ι → Kind) : Sys ι Shm Locals :=
  ⟨initShm c, fun i => (kind i).code c, fun _ => initLocals c⟩

/-- A condition of the `never` claim. -/
def NeverClaim (g : Shm) : Prop :=
  c.dataSize < g.shmDataFree ∨ c.indexCnt < g.shmIdxFree ∨ c.dataSize < g.shmDataHead ∨
    c.indexCnt < g.shmIdxHead

end

end Ach.Spin.Model
