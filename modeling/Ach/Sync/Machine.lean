import Ach.Channel.Runs

/-! # Interleaved calls

The calls of `ach.c` cut where other threads can come in between: at each locking, unlocking, wait
and broadcast, and at each test of the cancel flag, which a signal handler writes without the lock.
A step is one such operation and the code after it up to the next one; what it does to the block is
what the functions of `Ach.Channel` do. Any number of handles, each used by one thread, run calls;
`ach_cancel` runs in a thread of its own, or in a signal handler that interrupts the thread of a
handle at any instant and forks a child that goes on in its place.

A wait takes the thread out of play until a broadcast, or a spurious wake-up, puts it back; it then
needs the mutex again. A timed wait may find that its time has run out. If it finds instead that the
previous owner of the mutex died, that is what it returns (`EOWNERDEAD`), and it is a wake-up like
any other. -/

namespace Ach.Sync.Machine

open Ach.Lib.Run
open Ach.Channel.Types Ach.Channel.Lock Ach.Channel.Put Ach.Channel.Get

/-! ### Calls -/

/-- A reading call and its arguments. -/
inductive ReadOp where
  | get (size : ℕ) (abstime : Bool) (opts : AchGetOpts)
  | flush
  deriving DecidableEq

/-- A call and its arguments. -/
inductive Op where
  | put (buf : Option (ℕ → UInt8)) (len : ℕ)
  | read (r : ReadOp)

/-- What a call gives its caller. -/
inductive Ret where
  | put (r : AchStatus)
  | get (res : GetResult)
  | flush (r : AchStatus)
  deriving DecidableEq

/-- The call waits for a frame. -/
def ReadOp.wait : ReadOp → Bool
  | .get _ _ opts => opts.wait
  | .flush => false

/-- The call waits until a point in time only. -/
def ReadOp.abstime : ReadOp → Bool
  | .get _ abstime _ => abstime
  | .flush => false

/-- What the call gives if `rdlock` fails. -/
def ReadOp.fail (st : AchStatus) : ReadOp → Ret
  | .get _ _ _ => .get (.bare st)
  | .flush => .flush st

/-- What the call gives, after `unrdlock` has returned `st`. -/
def Ret.afterUnlock (st : AchStatus) : Ret → Ret
  | .put r => .put r
  | .get res => .get (if st = .ok then res else { res with status := st })
  | .flush _ => .flush st

/-- The result is one of a reading call. -/
def Ret.isRead : Ret → Bool
  | .put _ => false
  | _ => true

/-- Where a handle stands. -/
inductive Pc where
  /-- Between two calls. -/
  | idle
  /-- The process died. -/
  | dead
  /-- A read, about to lock the mutex. -/
  | lock (r : ReadOp)
  /-- At the head of the loop of `rdlock`. -/
  | loop (r : ReadOp)
  /-- About to wait. -/
  | toWait (r : ReadOp)
  /-- In the condition wait. -/
  | blocked (r : ReadOp)
  /-- Woken, about to lock the mutex again. -/
  | woken (r : ReadOp)
  /-- `rdlock` has returned `ACH_OK`. -/
  | body (r : ReadOp)
  /-- About to call `unrdlock`. -/
  | unrdlock (ret : Ret)
  /-- `rdlock` has failed and is about to release the mutex. -/
  | release (ret : Ret)
  /-- A put, about to call `wrlock`. -/
  | putLock (buf : ℕ → UInt8) (len : ℕ)
  /-- `wrlock` has returned; `got` says whether it got the mutex. -/
  | putBody (buf : ℕ → UInt8) (len : ℕ) (got : Bool)
  /-- In `unwrlock`, about to clear the dirty flag. -/
  | putClear (got : Bool)
  /-- In `unwrlock`, about to unlock the mutex. -/
  | putUnlock (got : Bool)
  /-- In `unwrlock`, about to broadcast. -/
  | putBroadcast
  /-- About to return to the caller. -/
  | done (ret : Ret)

/-- The handle holds the mutex. -/
def Pc.holds : Pc → Bool
  | .loop _ | .toWait _ | .body _ | .unrdlock _ | .release _ => true
  | .putBody _ _ got | .putClear got | .putUnlock got => got
  | _ => false

/-- The handle is inside `ach_get` or `ach_flush`. -/
def Pc.inRead : Pc → Bool
  | .lock _ | .loop _ | .toWait _ | .blocked _ | .woken _ | .body _ => true
  | .unrdlock ret | .release ret | .done ret => ret.isRead
  | _ => false

/-- A broadcast puts a waiting thread back in play. -/
def Pc.wake : Pc → Pc
  | .blocked r => .woken r
  | p => p

/-! ### What one handle does -/

/-- What a step of a handle does: to the block, to the handle, and whether it broadcasts. -/
structure Move where
  shm : AchHeader
  chan : AchChannel
  pc : Pc
  broadcasts : Bool

/-- A call begins: the checks made before the lock is taken. -/
def enter (shm : AchHeader) (chan : AchChannel) : Op → Option Pc
  | .put none _ => some (.done (.put .einval))
  | .put (some buf) len =>
    if len = 0 ∨ chan.mapped = false then some (.done (.put .einval))
    else if checkGuards shm ≠ .ok then some (.done (.put (checkGuards shm)))
    else if shm.dataSize < len then some (.done (.put .overflow))
    else some (.putLock buf len)
  | .read (.get size abstime opts) =>
    if chan.mapped = false then none
    else if checkGuards shm ≠ .ok then some (.done (.get (.bare (checkGuards shm))))
    else some (.lock (.get size abstime opts))
  | .read .flush => if chan.mapped = false then none else some (.lock .flush)

/-- The move made from the outcome of the code of the step; no step if the code does not return. -/
def moveOn {α : Type} (o : Outcome (α × AchHeader)) (f : α → AchHeader → Move) : Option Move :=
  match o with
  | .ok (a, shm) => some (f a shm)
  | _ => none

/-- The next step of a handle. Locking waits while the mutex is held. -/
def advance (dbg : Bool) (shm : AchHeader) (chan : AchChannel) : Pc → Option Move
  | .lock r =>
    if shm.mutex = .held then none
    else moveOn (out chanLock dbg shm) fun st shm =>
      ⟨shm, chan, if st = .ok then .loop r else .done (r.fail st), false⟩
  | .loop r =>
    some ⟨shm, chan,
      if chan.cancel then .release (r.fail .canceled)
      else if r.wait = true ∧ chan.seqNum = shm.lastSeq then .toWait r
      else .body r, false⟩
  | .toWait r => some ⟨setMutex .free shm, chan, .blocked r, false⟩
  | .woken r =>
    if shm.mutex = .held then none
    else moveOn (out (pthreadMutexLock >>= fun i => checkLock i true) dbg shm) fun st shm =>
      ⟨shm, chan, if st = .ok then .loop r else .done (r.fail st), false⟩
  | .body (.get size _ opts) =>
    moveOn (out (getCritical chan size opts) dbg shm) fun p shm =>
      ⟨shm, p.2, .unrdlock (.get p.1), false⟩
  | .body .flush =>
    moveOn (out (flushCritical chan) dbg shm) fun chan shm =>
      ⟨shm, chan, .unrdlock (.flush .ok), false⟩
  | .unrdlock ret =>
    moveOn (out unrdlock dbg shm) fun st shm => ⟨shm, chan, .done (ret.afterUnlock st), false⟩
  | .release ret =>
    moveOn (out pthreadMutexUnlock dbg shm) fun _ shm => ⟨shm, chan, .done ret, false⟩
  | .putLock buf len =>
    if shm.mutex = .held then none
    else moveOn (out wrlock dbg shm) fun st shm =>
      ⟨shm, chan, .putBody buf len (decide (st = .ok)), false⟩
  | .putBody buf len got =>
    moveOn (out (putCritical buf len) dbg shm) fun _ shm => ⟨shm, chan, .putClear got, false⟩
  | .putClear got =>
    if dbg = true ∧ shm.dirty = false then none
    else some ⟨{ shm with dirty := false }, chan, .putUnlock got, false⟩
  | .putUnlock true =>
    moveOn (out pthreadMutexUnlock dbg shm) fun r shm =>
      ⟨shm, chan, if r = .zero then .putBroadcast else .done (.put .failedSyscall), false⟩
  | .putUnlock false =>
    some ⟨{ shm with strayUnlocks := shm.strayUnlocks + 1 }, chan, .done (.put .failedSyscall),
      false⟩
  | .putBroadcast => some ⟨shm, chan, .done (.put .ok), true⟩
  | .idle | .dead | .blocked _ | .done _ => none

/-! ### Cancellation -/

/-- Where a signal handler that calls `ach_cancel` stands. -/
inductive SigPc where
  | set
  | fork
  deriving DecidableEq

/-- Where `ach_cancel` stands in a thread of its own, or in the child of a signal handler. -/
inductive CancelPc where
  | lock
  | set
  | unlock
  | broadcast
  | exited
  deriving DecidableEq

/-- A canceller, or the forked child of one, of the given handle. -/
structure Canceller (H : Type) where
  handle : H
  child : Bool
  pc : CancelPc

/-- The task holds the mutex. -/
def CancelPc.holds : CancelPc → Bool
  | .set | .unlock => true
  | _ => false

/-! ### The system -/

/-- The block, the handles with their threads, the signal handlers that interrupt each thread
(innermost first), and the cancellers. -/
structure St (H : Type) where
  shm : AchHeader
  chan : H → AchChannel
  pc : H → Pc
  sig : H → List SigPc
  tasks : List (Canceller H)

/-- The steps of the system. -/
inductive Label (H : Type) where
  /-- The handle calls. -/
  | begin (h : H) (op : Op)
  /-- The handle takes its next step. -/
  | step (h : H)
  /-- A wake-up without a broadcast. -/
  | wake (h : H)
  /-- A wait returns `ETIMEDOUT`. -/
  | timeout (h : H)
  /-- The call returns: what it gives its caller, the handle, and the channel. -/
  | ret (h : H) (ret : Ret) (chan : AchChannel) (contents : AchHeader)
  /-- The process dies inside `ach_get` or `ach_flush`. -/
  | die (h : H)
  /-- A signal interrupts the thread of the handle; its handler calls `ach_cancel`. -/
  | signal (h : H)
  /-- The innermost signal handler takes its next step. -/
  | handler (h : H)
  /-- Another thread calls `ach_cancel` on the handle with `async_unsafe`. -/
  | cancel (h : H)
  /-- A canceller or a forked child takes its next step. -/
  | task (i : ℕ)

/-- The contents of the channel: everything but the mutex. -/
def contents (shm : AchHeader) : AchHeader := setMutex .free shm

variable {H : Type}

/-- Every handle is between two calls and nobody cancels anything. -/
structure Quiet (s : St H) : Prop where
  pc : ∀ h, s.pc h = .idle
  sig : ∀ h, s.sig h = []
  tasks : s.tasks = []

variable [DecidableEq H]

/-- The effect of a move of a handle. -/
def St.apply (s : St H) (h : H) (m : Move) : St H :=
  { s with
    shm := m.shm
    chan := Function.update s.chan h m.chan
    pc := Function.update (if m.broadcasts then fun g => (s.pc g).wake else s.pc) h m.pc }

/-- The next step of a signal handler. -/
def St.handlerStep (s : St H) (h : H) : Option (St H) :=
  match s.sig h with
  | .set :: rest => some { s with
      chan := Function.update s.chan h { s.chan h with cancel := true }
      sig := Function.update s.sig h (.fork :: rest) }
  | .fork :: rest => some { s with
      sig := Function.update s.sig h rest
      tasks := s.tasks ++ [⟨h, true, .lock⟩] }
  | [] => none

/-- The next step of a canceller. If its lock fails it gives up. -/
def St.taskStep (dbg : Bool) (s : St H) (i : ℕ) (t : Canceller H) : Option (St H) :=
  let goto := fun pc => s.tasks.set i { t with pc := pc }
  match t.pc with
  | .lock =>
    if s.shm.mutex = .held then none
    else match out chanLock dbg s.shm with
      | .ok (st, shm) => some { s with
          shm := shm
          tasks := goto (if st ≠ .ok then .exited else if t.child then .unlock else .set) }
      | _ => none
  | .set => some { s with
      chan := Function.update s.chan t.handle { s.chan t.handle with cancel := true }
      tasks := goto .unlock }
  | .unlock =>
    match out pthreadMutexUnlock dbg s.shm with
    | .ok (r, shm) => some { s with
        shm := shm
        tasks := goto (if r = .zero then .broadcast else .exited) }
    | _ => none
  | .broadcast => some { s with
      pc := fun g => (s.pc g).wake
      tasks := goto .exited }
  | .exited => none

/-- **One step of the system.** A thread does not go on while a signal handler runs in it. -/
def St.next (dbg : Bool) (s : St H) : Label H → Option (St H)
  | .begin h op =>
    match s.pc h, s.sig h with
    | .idle, [] =>
      (enter s.shm (s.chan h) op).map fun pc => { s with pc := Function.update s.pc h pc }
    | _, _ => none
  | .step h =>
    match s.sig h with
    | [] => (advance dbg s.shm (s.chan h) (s.pc h)).map (s.apply h)
    | _ => none
  | .wake h =>
    match s.pc h with
    | .blocked r => some { s with pc := Function.update s.pc h (.woken r) }
    | _ => none
  | .timeout h =>
    match s.pc h, s.sig h with
    | .woken r, [] =>
      if r.abstime = true ∧ s.shm.mutex = .free then
        some (s.apply h ⟨setMutex .held s.shm, s.chan h, .release (r.fail .timeout), false⟩)
      else none
    | _, _ => none
  | .ret h ret chan shm =>
    match s.pc h, s.sig h with
    | .done ret', [] =>
      if ret' = ret ∧ s.chan h = chan ∧ contents s.shm = shm then
        some { s with pc := Function.update s.pc h .idle }
      else none
    | _, _ => none
  | .die h =>
    if (s.pc h).inRead then
      some { s with
        shm := if (s.pc h).holds then setMutex .abandoned s.shm else s.shm
        pc := Function.update s.pc h .dead }
    else none
  | .signal h => some { s with sig := Function.update s.sig h (.set :: s.sig h) }
  | .handler h => s.handlerStep h
  | .cancel h => some { s with tasks := s.tasks ++ [⟨h, false, .lock⟩] }
  | .task i => s.tasks[i]?.bind (s.taskStep dbg i)

/-- The steps one after the other. -/
def run (dbg : Bool) : List (Label H) → St H → Option (St H)
  | [], s => some s
  | l :: ls, s => (s.next dbg l).bind (run dbg ls)

end Ach.Sync.Machine
