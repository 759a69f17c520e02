import Ach.Channel.Types

/-! # `ach_create` and `ach_open`

The system calls the two functions make are not theirs to decide: what they return is a parameter
(`CreateEnv`, `OpenEnv`), a call retried after `EINTR` having one result an attempt. Two limits are
not left open. `ftruncate` takes a signed length and fails for a negative one, and no allocation is
larger than `PTRDIFF_MAX`; so no block of `2 ^ 63` bytes or more is ever made.

`mmap` maps whole pages. `ach_open` computes its length without the guard words, so the last of them
can lie past the pages it maps; what `check_guards` makes of that is `checkMapped`. -/

namespace Ach.Channel.Create

open Ach.Lib.Run Ach.Lib.Word Ach.Channel.Types

/-- The values of `errno` that `check_errno` and the retry loops distinguish. -/
inductive Errno where
  | eexist | enoent | eacces | eintr | other
  deriving DecidableEq, Repr

/-- `check_errno`. -/
def checkErrno : Errno → AchStatus
  | .eexist => .eexist
  | .enoent => .enoent
  | .eacces => .eacces
  | _ => .failedSyscall

def achChanNameMax : ℕ := 64
def achIntrRetry : ℕ := 8

/-- `isalnum` in the C locale. -/
def isalnum (c : UInt8) : Bool :=
  (48 ≤ c && c ≤ 57) || (65 ≤ c && c ≤ 90) || (97 ≤ c && c ≤ 122)

/-- `channel_name_ok`: a short name of letters, digits, `-`, `_` and `.`, not starting with `.`. -/
def channelNameOk (name : List UInt8) : Bool :=
  decide (name.length < achChanNameMax) && name.head? != some 46 &&
    name.all fun c => isalnum c || c == 45 || c == 95 || c == 46

/-- A system call tried again after `EINTR`, at most `left` times; `r i` is the error of attempt
`i`, `none` a success. -/
def retryIntr (r : ℕ → Option Errno) : (left i : ℕ) → Option Errno
  | 0, i => r i
  | left + 1, i => if r i = some .eintr then retryIntr r left (i + 1) else r i

/-- The answers of the system calls `ach_create` makes. -/
structure CreateEnv where
  malloc : Bool
  shmOpen : ℕ → Option Errno
  ftruncate : ℕ → Option Errno
  mmap : Bool
  pthreadInit : Bool
  munmap : Bool
  close : ℕ → Option Errno

/-- `sizeof(ach_header_t)` with the x86-64 layout of the pthread types. -/
def sizeofHeader : ℕ := 320

/-- `sizeof(ach_index_t)`. -/
def sizeofIndex : ℕ := 24

/-- The length of the block. -/
def createLen (frameCnt frameSize : ℕ) : ℕ :=
  wadd (wadd (wadd sizeofHeader (wmul frameCnt sizeofIndex)) (wmul frameCnt frameSize)) (3 * 8)

/-- The length computation does not wrap around. -/
def NoWrap (frameCnt frameSize : ℕ) : Prop :=
  sizeofHeader + frameCnt * sizeofIndex + frameCnt * frameSize + 3 * 8 < 2 ^ 64

instance (frameCnt frameSize : ℕ) : Decidable (NoWrap frameCnt frameSize) := by
  unfold NoWrap; infer_instance

/-- The block as `ach_create` leaves it. -/
def created (frameCnt frameSize : ℕ) : AchHeader where
  magic := achShmMagicNum
  len := createLen frameCnt frameSize
  indexCnt := frameCnt
  dataSize := wmul frameCnt frameSize
  dataHead := 0
  dataFree := wmul frameCnt frameSize
  indexHead := 0
  indexFree := frameCnt
  mutex := .free
  dirty := false
  lastSeq := 0
  guardHeader := achShmGuardHeaderNum
  index := List.replicate frameCnt .zero
  guardIndex := achShmGuardIndexNum
  data := List.replicate (wmul frameCnt frameSize) 0
  guardData := achShmGuardDataNum
  strayUnlocks := 0

/-- The initialization of an allocated block. -/
def initBlock (dbg : Bool) (env : CreateEnv) (frameCnt frameSize : ℕ) :
    Outcome (Except AchStatus AchHeader) :=
  let shm := created frameCnt frameSize
  if env.pthreadInit = false then .ok (.error .failedSyscall)
  else if dbg ∧ wadd (wadd (wadd sizeofHeader (wmul shm.indexFree sizeofIndex)) shm.dataFree)
    (3 * 8)
      ≠ shm.len then .abort
  else .ok (.ok shm)

/-- **`ach_create`.** The memory of an anonymous channel is written to without a test for `NULL`. -/
def achCreate (dbg : Bool) (env : CreateEnv) (name : List UInt8) (frameCnt frameSize : ℕ)
    (mapAnon : Bool) : Outcome (Except AchStatus AchHeader) :=
  let len := createLen frameCnt frameSize
  if mapAnon then
    if env.malloc = false ∨ 2 ^ 63 ≤ len then .fault else initBlock dbg env frameCnt frameSize
  else if channelNameOk name = false then .ok (.error .invalidName)
  else match retryIntr env.shmOpen achIntrRetry 0 with
    | some e => .ok (.error (checkErrno e))
    | none =>
      if (retryIntr env.ftruncate achIntrRetry 0).isSome ∨ 2 ^ 63 ≤ len then
        .ok (.error .failedSyscall)
      else if env.mmap = false then .ok (.error .failedSyscall)
      else (initBlock dbg env frameCnt frameSize).bind fun r =>
        match r with
        | .error e => .ok (.error e)
        | .ok shm =>
          if env.munmap = false ∨ (retryIntr env.close achIntrRetry 0).isSome then
            .ok (.error .failedSyscall)
          else .ok (.ok shm)

/-- The answers of the system calls `ach_open` makes, and whether there is readable memory past the
pages it maps. -/
structure OpenEnv where
  shmOpen : ℕ → Option Errno
  mmap : Bool
  munmap : Option Errno
  remap : Option Errno
  past : Bool

/-- The length `ach_open` maps. -/
def openLen (shm : AchHeader) : ℕ :=
  wadd (wadd sizeofHeader (wmul sizeofIndex shm.indexCnt)) shm.dataSize

/-- `sysconf(_SC_PAGESIZE)` -/
def pageSize : ℕ := 4096

/-- The bytes of the pages that `mmap` maps for a length. -/
def pagesOf (len : ℕ) : ℕ := (len + (pageSize - 1)) / pageSize * pageSize

/-- Where the index guard is, from the start of the block. Pointers wrap around. -/
def guardIndexAt (shm : AchHeader) : ℕ := wadd (sizeofHeader + 8) (wmul sizeofIndex shm.indexCnt)

/-- Where the data guard is. -/
def guardDataAt (shm : AchHeader) : ℕ := wadd (wadd (guardIndexAt shm) 8) shm.dataSize

/-- `check_guards` in `ach_open`, which has mapped `len` bytes. Past their pages a read crashes, or
finds something that is no guard. -/
def checkMapped (len : ℕ) (past : Bool) (shm : AchHeader) : Outcome AchStatus :=
  let beyond : Outcome AchStatus := if past then .ok .corrupt else .fault
  if shm.magic ≠ achShmMagicNum ∨ shm.guardHeader ≠ achShmGuardHeaderNum then .ok .corrupt
  else if pagesOf len < guardIndexAt shm + 8 then beyond
  else if shm.guardIndex ≠ achShmGuardIndexNum then .ok .corrupt
  else if pagesOf len < guardDataAt shm + 8 then beyond
  else .ok (checkGuards shm)

/-- The handle as `ach_open` initializes it. -/
def openedChan (shm : AchHeader) : AchChannel where
  mapped := true
  len := openLen shm
  seqNum := 0
  nextIndex := 1
  cancel := false

/-- The end of `ach_open`, after `check_guards`. -/
def initChan (shm : AchHeader) (r : AchStatus) : Except AchStatus AchChannel :=
  if r ≠ .ok then .error r else .ok (openedChan shm)

/-- **`ach_open`**, of a channel whose block is `shm`. -/
def achOpen (env : OpenEnv) (name : List UInt8) (mapAnon : Bool) (shm : AchHeader) :
    Outcome (Except AchStatus AchChannel) :=
  if mapAnon then .ok (initChan shm (checkGuards shm))
  else if channelNameOk name = false then .ok (.error .invalidName)
  else match retryIntr env.shmOpen achIntrRetry 0 with
    | some e => .ok (.error (checkErrno e))
    | none =>
      if env.mmap = false then .ok (.error .failedSyscall)
      else if shm.magic ≠ achShmMagicNum then .ok (.error .badShmFile)
      else match env.munmap, env.remap with
        | some e, _ => .ok (.error (checkErrno e))
        | none, some e => .ok (.error (checkErrno e))
        | none, none => (checkMapped (openLen shm) env.past shm).bind fun r => .ok (initChan shm r)

/-- An environment in which every system call of `ach_open` succeeds. -/
def OpenEnv.allOk : OpenEnv := ⟨fun _ => none, true, none, none, false⟩

/-! ### What a created channel is -/

theorem initBlock_ok {dbg : Bool} {env : CreateEnv} {cnt size : ℕ} {shm : AchHeader}
    (h : initBlock dbg env cnt size = .ok (.ok shm)) : shm = created cnt size := by
  unfold initBlock at h
  simp only at h
  by_cases h1 : env.pthreadInit = false
  · rw [if_pos h1] at h; simp at h
  · rw [if_neg h1] at h
    split at h
    · simp at h
    · simpa using h.symm

/-- A successful `ach_create` made the block, and the block is shorter than `2 ^ 63` bytes. -/
theorem achCreate_ok {dbg : Bool} {env : CreateEnv} {name : List UInt8} {cnt size : ℕ}
    {mapAnon : Bool} {shm : AchHeader}
    (h : achCreate dbg env name cnt size mapAnon = .ok (.ok shm)) :
    shm = created cnt size ∧ createLen cnt size < 2 ^ 63 := by
  unfold achCreate at h
  simp only at h
  by_cases h1 : mapAnon
  · rw [if_pos h1] at h
    split at h
    · simp at h
    · exact ⟨initBlock_ok h, by omega⟩
  rw [if_neg h1] at h
  by_cases h2 : channelNameOk name = false
  · rw [if_pos h2] at h; simp at h
  rw [if_neg h2] at h
  cases h3 : retryIntr env.shmOpen achIntrRetry 0 with
  | some e => rw [h3] at h; simp at h
  | none =>
    rw [h3] at h
    by_cases h4 : (retryIntr env.ftruncate achIntrRetry 0).isSome ∨ 2 ^ 63 ≤ createLen cnt size
    · simp only [h4, if_true] at h
      simp at h
    · simp only [h4, if_false] at h
      by_cases h5 : env.mmap = false
      · simp [h5] at h
      · simp only [h5] at h
        obtain ⟨r, hr, h⟩ := Outcome.bind_eq_ok.mp h
        rcases r with e | s
        · simp at h
        · simp only at h
          split at h
          · simp at h
          · obtain rfl : s = shm := by simpa using h
            exact ⟨initBlock_ok hr, by omega⟩

theorem initChan_ok {shm : AchHeader} {r : AchStatus} {chan : AchChannel}
    (h : initChan shm r = .ok chan) : chan = openedChan shm ∧ r = .ok := by
  unfold initChan at h
  split_ifs at h with hr
  exact ⟨(Except.ok.inj h).symm, not_not.mp hr⟩

/-- A handle that `ach_open` gives; by name, it has read all guards. -/
theorem achOpen_ok {env : OpenEnv} {name : List UInt8} {mapAnon : Bool} {shm : AchHeader}
    {chan : AchChannel} (h : achOpen env name mapAnon shm = .ok (.ok chan)) :
    chan = openedChan shm ∧
      (mapAnon = false → checkMapped (openLen shm) env.past shm = .ok .ok) := by
  unfold achOpen at h
  by_cases h1 : mapAnon = true
  · rw [if_pos h1] at h
    exact ⟨(initChan_ok (Outcome.ok.inj h)).1, fun hf => absurd (h1.symm.trans hf) (by decide)⟩
  rw [if_neg h1] at h
  by_cases h2 : channelNameOk name = false
  · rw [if_pos h2] at h
    simp at h
  rw [if_neg h2] at h
  split at h
  · simp at h
  by_cases h3 : env.mmap = false
  · rw [if_pos h3] at h
    simp at h
  rw [if_neg h3] at h
  by_cases h4 : shm.magic ≠ achShmMagicNum
  · rw [if_pos h4] at h
    simp at h
  rw [if_neg h4] at h
  split at h
  · simp at h
  · simp at h
  · obtain ⟨r, hr, hchan⟩ := Outcome.bind_eq_ok.mp h
    obtain ⟨rfl, rfl⟩ := initChan_ok (Outcome.ok.inj hchan)
    exact ⟨rfl, fun _ => hr⟩

/-- Where `check_guards` finds all guards they are in the pages mapped, whatever lies past them. -/
theorem checkMapped_ok {len : ℕ} {past : Bool} {shm : AchHeader}
    (h : checkMapped len past shm = .ok .ok) (past' : Bool) :
    checkMapped len past' shm = .ok .ok := by
  unfold checkMapped at h ⊢
  simp only at h ⊢
  by_cases h1 : shm.magic ≠ achShmMagicNum ∨ shm.guardHeader ≠ achShmGuardHeaderNum
  · rw [if_pos h1] at h
    simp at h
  rw [if_neg h1] at h ⊢
  by_cases h2 : pagesOf len < guardIndexAt shm + 8
  · rw [if_pos h2] at h
    split_ifs at h
    simp at h
  rw [if_neg h2] at h ⊢
  by_cases h3 : shm.guardIndex ≠ achShmGuardIndexNum
  · rw [if_pos h3] at h
    simp at h
  rw [if_neg h3] at h ⊢
  by_cases h4 : pagesOf len < guardDataAt shm + 8
  · rw [if_pos h4] at h
    split_ifs at h
    simp at h
  · rwa [if_neg h4] at h ⊢

/-- A new channel whose guards are in the pages mapped. -/
theorem checkMapped_created {len : ℕ} {past : Bool} {cnt size : ℕ}
    (hindex : guardIndexAt (created cnt size) + 8 ≤ pagesOf len)
    (hdata : guardDataAt (created cnt size) + 8 ≤ pagesOf len) :
    checkMapped len past (created cnt size) = .ok .ok := by
  have hguards : checkGuards (created cnt size) = .ok := if_pos ⟨rfl, rfl, rfl, rfl⟩
  simp only [checkMapped, Nat.not_lt.mpr hindex, Nat.not_lt.mpr hdata, hguards, if_false]
  rfl

/-- Without a wrap-around the length is the sum of the parts. -/
theorem createLen_eq {cnt size : ℕ} (h : NoWrap cnt size) :
    createLen cnt size = sizeofHeader + cnt * sizeofIndex + cnt * size + 3 * 8 := by
  unfold NoWrap at h
  unfold createLen
  rw [wmul_eq (by omega), wmul_eq (by omega), wadd_eq (a := sizeofHeader) (by omega),
    wadd_eq (a := sizeofHeader + _) (by omega), wadd_eq (by omega)]

end Ach.Channel.Create
