import Ach.Channel.Delivery
import Ach.Lib.Text

/-! # Channels by name

Processes share a channel by its name: one calls `ach_create`, others call `ach_open`, and
`ach_unlink` takes the name away. `ach_create` makes the file and only then writes the block, one
field after the other, and any other call can come in between. So here `ach_create` and `ach_open`
go step by step, each step one system call or one store, in any order with those of the other
processes. A process that dies in one of the two takes no further step.

The calls on an open handle are the atomic ones of `Ach.Channel.Runs`. A file is numbered when it is
made, and a handle has a number that is never used again. With `attr->truncate` an `ach_create`
takes the file that has the name, if one has, and writes its block anew, also where others have it
mapped or are in `ach_create` themselves. Anonymous channels have no name, and are left out. -/

namespace Ach.Shm.Machine

open Ach.Lib.Run Ach.Lib.Text Ach.Lib.Word
open Ach.Channel.Types Ach.Channel.Create Ach.Channel.Runs

/-! ### The name of the file -/

/-- `ACH_CHAN_NAME_PREFIX`. -/
def achChanNamePrefix : List UInt8 := ascii "/achshm-"

/-- The name `shmfile_for_channel_name` builds. -/
def shmName (name : List UInt8) : List UInt8 := achChanNamePrefix ++ name.take achChanNameMax

/-- `shmfile_for_channel_name`, with a buffer of `n` bytes. -/
def shmfileForChannelName (name : List UInt8) (n : ℕ) : Except AchStatus (List UInt8) :=
  if n < achChanNameMax + 16 then .error .bug
  else if channelNameOk name = false then .error .invalidName
  else .ok (shmName name)

/-- The two names of a channel determine each other. -/
theorem shmName_inj {name name' : List UInt8} (h : channelNameOk name = true)
    (h' : channelNameOk name' = true) (heq : shmName name = shmName name') : name = name' := by
  have hshort : ∀ n : List UInt8, channelNameOk n = true → n.take achChanNameMax = n := by
    intro n hn
    unfold channelNameOk at hn
    simp only [Bool.and_eq_true, decide_eq_true_eq] at hn
    exact List.take_of_length_le (Nat.le_of_lt hn.1.1)
  rw [shmName, shmName, hshort name h, hshort name' h'] at heq
  exact List.append_cancel_left heq

/-! ### The block before it is a channel -/

/-- The block of a file with zeros. -/
def zeroBlock : AchHeader where
  magic := 0
  len := 0
  indexCnt := 0
  dataSize := 0
  dataHead := 0
  dataFree := 0
  indexHead := 0
  indexFree := 0
  mutex := .free
  dirty := false
  lastSeq := 0
  guardHeader := 0
  index := []
  guardIndex := 0
  data := []
  guardData := 0
  strayUnlocks := 0

/-- What `ach_create` does to the block. -/
inductive Stmt where
  | store (f : AchHeader → AchHeader)
  /-- The pthread calls for the condition variable or the mutex. -/
  | pthread
  /-- `assert`, on the length. -/
  | assertLen

/-- **The block is written in this order.** The arrays are where the counts say. -/
def initStmts (frameCnt frameSize : ℕ) : List Stmt :=
  [.store fun _ => zeroBlock,
    .store fun s => { s with len := createLen frameCnt frameSize },
    .pthread,
    .pthread,
    .store fun s => { s with indexCnt := frameCnt, index := List.replicate frameCnt .zero },
    .store fun s => { s with indexHead := 0 },
    .store fun s => { s with indexFree := frameCnt },
    .store fun s => { s with dataHead := 0 },
    .store fun s => { s with dataFree := wmul frameCnt frameSize },
    .store fun s => { s with
      dataSize := wmul frameCnt frameSize, data := List.replicate (wmul frameCnt frameSize) 0 },
    .assertLen,
    .store fun s => { s with guardHeader := achShmGuardHeaderNum },
    .store fun s => { s with guardIndex := achShmGuardIndexNum },
    .store fun s => { s with guardData := achShmGuardDataNum },
    .store fun s => { s with magic := achShmMagicNum }]

/-- What a statement leaves in the block. -/
def Stmt.run : Stmt → AchHeader → AchHeader
  | .store f => f
  | _ => id

/-- The assert holds. -/
def LenOk (shm : AchHeader) : Prop :=
  wadd (wadd (wadd sizeofHeader (wmul shm.indexFree sizeofIndex)) shm.dataFree) (3 * 8) = shm.len

instance (shm : AchHeader) : Decidable (LenOk shm) := by unfold LenOk; infer_instance

/-- All statements together leave a channel. -/
theorem foldl_initStmts (cnt size : ℕ) :
    (initStmts cnt size).foldl (fun s st => st.run s) zeroBlock = created cnt size := rfl

/-- What is left of a list. -/
theorem take_of_append {α : Type} {past todo l : List α} (h : past ++ todo = l) :
    past = l.take past.length ∧ todo = l.drop past.length := by
  subst h
  simp

/-- The assert holds at its place. -/
theorem lenOk_of_before {cnt size : ℕ} {past todo : List Stmt}
    (h : past ++ .assertLen :: todo = initStmts cnt size) :
    LenOk (past.foldl (fun s st => st.run s) zeroBlock) := by
  obtain ⟨hpast, htodo⟩ := take_of_append h
  have hn : past.length < 15 := by
    have := congrArg List.length h
    simp only [List.length_append, List.length_cons, initStmts, List.length_nil] at this
    omega
  have hten : past.length = 10 := by
    generalize past.length = n at hn htodo
    interval_cases n <;> first | rfl | simp [initStmts] at htodo
  rw [hpast, hten]
  exact rfl

/-- **The magic number comes last.** -/
theorem magic_of_before {cnt size : ℕ} {past todo : List Stmt}
    (h : past ++ todo = initStmts cnt size) (hne : todo ≠ []) :
    (past.foldl (fun s st => st.run s) zeroBlock).magic = 0 := by
  have hn : past.length < 15 := by
    have := congrArg List.length h
    have hpos := List.length_pos_iff.mpr hne
    simp only [List.length_append, initStmts, List.length_cons, List.length_nil] at this
    omega
  rw [(take_of_append h).1]
  generalize past.length = n at hn
  interval_cases n <;> rfl

/-! ### The machine -/

/-- Where a call of `ach_create` is, once the file is there. -/
inductive CreatePc where
  | ftruncate
  | mmap
  | init (todo : List Stmt)
  | munmap
  | close
  /-- It has returned. -/
  | done (r : AchStatus)
  /-- The assert has failed. -/
  | aborted

/-- A file: the name it was made under, the arguments of its `ach_create` and where that is, the
length of the file and the block in it, and the calls made on it. -/
structure Obj where
  file : List UInt8
  cnt : ℕ
  size : ℕ
  pc : CreatePc
  len : ℕ
  shm : AchHeader
  log : List (Event ℕ)

/-- An `ach_create` that has come to a file that was there: its arguments and where it is. -/
structure Rewrite where
  obj : ℕ
  cnt : ℕ
  size : ℕ
  pc : CreatePc

/-- A handle: where its `ach_open` is, on which file. -/
inductive Session where
  | idle
  /-- The file is open. -/
  | magic (o : ℕ)
  /-- The magic number was right. -/
  | map (o : ℕ)
  /-- The block is mapped. -/
  | guards (o : ℕ) (chan : AchChannel)
  /-- `ach_open` has returned `ACH_OK`. -/
  | opened (o : ℕ) (chan : AchChannel)
  | closed (o : ℕ)
  /-- `ach_open` has returned an error. -/
  | failed (r : AchStatus)
  /-- The process has read behind the end of the file in `ach_open`. -/
  | sigbus
  /-- The process has read past the pages it has mapped in `ach_open`. -/
  | sigsegv
  /-- The process has crashed in a call. -/
  | crashed

/-- The file a handle is on. -/
def Session.obj : Session → Option ℕ
  | .magic o | .map o | .guards o _ | .opened o _ | .closed o => some o
  | _ => none

/-- The names, the files, the calls of `ach_create` on files that were there, and the handles. -/
structure World where
  names : List UInt8 → Option ℕ
  objs : ℕ → Option Obj
  rewrites : List Rewrite
  sessions : ℕ → Session

/-- No names, no files. -/
def World.empty : World := ⟨fun _ => none, fun _ => none, [], fun _ => .idle⟩

/-- A step. Where a system call can fail for a reason outside the model, the step says whether it
does. -/
inductive Act where
  /-- `shm_open` in `ach_create`; `o` is the number of the new file, if the file was not there. -/
  | create (o : ℕ) (name : List UInt8) (cnt size : ℕ) (truncate : Bool) (err : Option Errno)
  /-- The next step of the `ach_create` that made the file. -/
  | createNext (o : ℕ) (ok : Bool)
  /-- The next step of the `p`-th `ach_create` on a file that was there. -/
  | rewriteNext (p : ℕ) (ok : Bool)
  /-- `shm_open` in `ach_open`. -/
  | attach (h : ℕ) (name : List UInt8) (err : Option Errno)
  /-- The next step of `ach_open`; `past` says that there is readable memory past the pages it has
  mapped. -/
  | attachNext (h : ℕ) (err : Option Errno) (past : Bool)
  /-- A call on an open handle. -/
  | call (h : ℕ) (c : Call)
  | close (h : ℕ) (munmap : Bool) (close : Option Errno)
  | unlink (name : List UInt8) (err : Option Errno)

/-- `shm_open`, with `O_CREAT` and `O_EXCL` or without. It can also fail with `err`. -/
def World.shmOpen (w : World) (file : List UInt8) (creat excl : Bool) (err : Option Errno) :
    Option Errno :=
  match err with
  | some e => some e
  | none =>
    if (w.names file).isSome then if creat ∧ excl then some .eexist else none
    else if creat then none else some .enoent

/-- `ach_create` up to `shm_open`, and the error it returns if that fails. -/
def World.achCreate (w : World) (name : List UInt8) (truncate : Bool) (err : Option Errno) :
    Option AchStatus :=
  if channelNameOk name = false then some .invalidName
  else (w.shmOpen (shmName name) true (!truncate) err).map checkErrno

/-- `ach_open` up to `shm_open`. -/
def World.achOpen (w : World) (name : List UInt8) (err : Option Errno) : Option AchStatus :=
  if channelNameOk name = false then some .invalidName
  else (w.shmOpen (shmName name) false false err).map checkErrno

/-- `ach_unlink`. -/
def World.achUnlink (w : World) (name : List UInt8) (err : Option Errno) : AchStatus × World :=
  match shmfileForChannelName name (achChanNameMax + 16) with
  | .error r => (r, w)
  | .ok file =>
    match w.shmOpen file false false err with
    | some e => (checkErrno e, w)
    | none => (.ok, { w with names := Function.update w.names file none })

/-- `ach_close`: the status, and whether the block is still mapped. -/
def achClose (shm : AchHeader) (munmap : Bool) (close : Option Errno) : AchStatus × Bool :=
  if checkGuards shm ≠ .ok then (checkGuards shm, true)
  else if munmap = false then (.failedSyscall, true)
  else if close.isSome then (.failedSyscall, false)
  else (.ok, false)

/-- The next step of `ach_create`; `ok` says that the system call does not fail. -/
def Obj.createNext (dbg ok : Bool) (obj : Obj) : Option Obj :=
  match obj.pc with
  | .ftruncate =>
    if ok = false ∨ 2 ^ 63 ≤ createLen obj.cnt obj.size then
      some { obj with pc := .done .failedSyscall }
    else some { obj with len := createLen obj.cnt obj.size, pc := .mmap }
  | .mmap =>
    some { obj with pc := if ok then .init (initStmts obj.cnt obj.size) else .done .failedSyscall }
  | .init [] => none
  | .init (st :: todo) =>
    let next := if todo.isEmpty then CreatePc.munmap else .init todo
    match st with
    | .store f => some { obj with shm := f obj.shm, pc := next }
    | .pthread => some { obj with pc := if ok then next else .done .failedSyscall }
    | .assertLen => some { obj with pc := if dbg ∧ ¬ LenOk obj.shm then .aborted else next }
  | .munmap => some { obj with pc := if ok then .close else .done .failedSyscall }
  | .close => some { obj with pc := .done (if ok then .ok else .failedSyscall) }
  | .done _ | .aborted => none

/-- The next step of an `ach_create` on a file that was there. The steps are those of the
`ach_create` that makes a file. -/
def Rewrite.next (dbg ok : Bool) (r : Rewrite) (obj : Obj) : Option (Rewrite × Obj) :=
  (Obj.createNext dbg ok { obj with cnt := r.cnt, size := r.size, pc := r.pc }).map fun obj' =>
    ({ r with pc := obj'.pc }, { obj with len := obj'.len, shm := obj'.shm })

/-- The next step of `ach_open` on a file. -/
def Session.attachNext (len : ℕ) (shm : AchHeader) (err : Option Errno) (past : Bool) :
    Session → Option Session
  | .magic o =>
    some <| if err.isSome then .failed .failedSyscall
    else if len = 0 then .sigbus
    else if shm.magic ≠ achShmMagicNum then .failed .badShmFile
    else .map o
  | .map o => some <| match err with
    | some e => .failed (checkErrno e)
    | none => .guards o (openedChan shm)
  | .guards o chan => some <| match checkMapped chan.len past shm with
    | .ok .ok => .opened o chan
    | .ok r => .failed r
    | _ => .sigsegv
  | _ => none

/-- **One step.** A call that blocks is not one. -/
def World.next (dbg : Bool) (w : World) : Act → Option World
  | .create o name cnt size truncate err =>
    match w.achCreate name truncate err, w.names (shmName name) with
    | some _, _ => some w
    | none, none =>
      if (w.objs o).isNone then
        some { w with
          names := Function.update w.names (shmName name) (some o)
          objs := Function.update w.objs o
            (some ⟨shmName name, cnt, size, .ftruncate, 0, zeroBlock, []⟩) }
      else none
    | none, some o' => some { w with rewrites := w.rewrites ++ [⟨o', cnt, size, .ftruncate⟩] }
  | .createNext o ok => do
    let obj ← w.objs o
    let obj ← obj.createNext dbg ok
    some { w with objs := Function.update w.objs o (some obj) }
  | .rewriteNext p ok => do
    let r ← w.rewrites[p]?
    let obj ← w.objs r.obj
    let (r', obj') ← r.next dbg ok obj
    some { w with
      objs := Function.update w.objs r.obj (some obj')
      rewrites := w.rewrites.set p r' }
  | .attach h name err =>
    match w.sessions h with
    | .idle =>
      match w.achOpen name err, w.names (shmName name) with
      | some r, _ => some { w with sessions := Function.update w.sessions h (.failed r) }
      | none, some o => some { w with sessions := Function.update w.sessions h (.magic o) }
      | none, none => none
    | _ => none
  | .attachNext h err past => do
    let o ← (w.sessions h).obj
    let obj ← w.objs o
    let s ← (w.sessions h).attachNext obj.len obj.shm err past
    some { w with sessions := Function.update w.sessions h s }
  | .call h c =>
    match w.sessions h with
    | .opened o chan =>
      (w.objs o).bind fun obj =>
        match (⟨obj.shm, fun _ => chan⟩ : Sys ℕ).call dbg h c with
        | .ok (rep, s) => some { w with
            objs := Function.update w.objs o
              (some { obj with shm := s.shm, log := obj.log ++ [⟨h, c, rep⟩] })
            sessions := Function.update w.sessions h (.opened o (s.chan h)) }
        | .block => none
        | _ => some { w with sessions := Function.update w.sessions h .crashed }
    | _ => none
  | .close h munmap close =>
    match w.sessions h with
    | .opened o _ =>
      (w.objs o).map fun obj =>
        if (achClose obj.shm munmap close).2 then w
        else { w with sessions := Function.update w.sessions h (.closed o) }
    | _ => none
  | .unlink name err => some (w.achUnlink name err).2

/-- The steps one after the other. -/
def World.run (dbg : Bool) : List Act → World → Option World
  | [], w => some w
  | a :: as, w => (w.next dbg a).bind (World.run dbg as)

end Ach.Shm.Machine
