import Mathlib.Data.List.Basic
import Mathlib.Tactic.Linarith

/-! # The run loop of `achcop`

`achcop` starts a program and waits for signals: the program's end (`SIGCHLD`), a request to
terminate it (`SIGTERM`, `SIGINT`) or to restart it (`SIGHUP`), and the news that it has started
well (`SIGUSR1`, or `SIGALRM` if it has lasted long enough). All signals are blocked and taken one
at a time with `sigwait`, so a run of the loop is a function of the list of the signals it takes.

`SIGCHLD` comes only when the current child has ended; it carries the status `waitpid` then gives.
Children are numbered in the order in which they are started. -/

namespace Ach.Cop.Loop

/-- What `waitpid` says about a child that has ended: it exited, or a signal killed it. -/
inductive WaitStatus where
  | exited (code : UInt8)
  | signaled (sig : ℕ)
  deriving DecidableEq, Repr

/-- The signals in `achcop_signals`. -/
inductive Sig where
  | int | term | chld (status : WaitStatus) | usr1 | usr2 | alrm | hup
  deriving DecidableEq, Repr

/-- `ACH_SIG_OK` and `ACH_SIG_FAIL`. -/
inductive Notice where
  | ok | fail
  deriving DecidableEq, Repr

/-- What the loop does that others can see. -/
inductive Action where
  | fork (child : ℕ)
  | alarm
  | kill (child : Option ℕ)
  | reap (child : Option ℕ) (status : WaitStatus)
  | notify (pid : ℕ) (sig : Notice)
  deriving DecidableEq, Repr

def exitSuccess : ℕ := 0
def exitFailure : ℕ := 1

/-- `struct flags`. -/
structure Flags where
  firstRun : Bool
  restart : Bool
  forceRestart : Bool
  start : Bool
  done : Bool
  deriving DecidableEq, Repr

/-- The variables of `run`, the global `ach_pid_notify`, the number of children started and what
was done so far. `child` is `none` where `pid_child` is `-1`. -/
structure St where
  flags : Flags
  child : Option ℕ
  exitStatus : ℕ
  pidNotify : ℕ
  started : ℕ
  actions : List Action
  deriving DecidableEq, Repr

/-- `ach_notify`: only the first notice is sent. -/
def achNotify (sig : Notice) (c : St) : St :=
  if 0 < c.pidNotify then
    { c with pidNotify := 0, actions := c.actions ++ [.notify c.pidNotify sig] }
  else c

@[simp] theorem started_achNotify (sig : Notice) (c : St) :
    (achNotify sig c).started = c.started := by
  unfold achNotify
  split_ifs <;> rfl

/-- `start_child`, in the parent. -/
def startChild (c : St) : St :=
  { c with
    child := some c.started
    started := c.started + 1
    actions := c.actions ++ [.fork c.started] }

/-- `terminate_child`. -/
def terminateChild (c : St) : St := { c with actions := c.actions ++ [.kill c.child] }

/-- The exit status `waitloop` finds. -/
def WaitStatus.exitStatus : WaitStatus → ℕ
  | .exited code => code.toNat
  | .signaled _ => exitFailure

/-- `waitloop`. -/
def waitloop (status : WaitStatus) (c : St) : St :=
  { c with exitStatus := status.exitStatus, actions := c.actions ++ [.reap c.child status] }

/-- The head of the loop: starts a child if one is to be started. -/
def loopHead (c : St) : St :=
  if c.flags.start then
    let c := startChild c
    let c := if c.flags.firstRun then { c with actions := c.actions ++ [.alarm] } else c
    { c with flags := { c.flags with start := false, forceRestart := false } }
  else c

/-- The decision about a child that has been reaped. -/
def decideRestart (c : St) : St :=
  if c.flags.forceRestart then { c with flags := { c.flags with start := true } }
  else if exitSuccess = c.exitStatus then { c with flags := { c.flags with done := true } }
  else if c.flags.firstRun then { c with flags := { c.flags with done := true } }
  else if c.flags.restart then { c with flags := { c.flags with start := true } }
  else { c with flags := { c.flags with done := true } }

@[simp] theorem started_decideRestart (c : St) : (decideRestart c).started = c.started := by
  unfold decideRestart
  repeat' split
  all_goals rfl

/-- The `switch` on the signal. -/
def handle (c : St) : Sig → St
  | .term => terminateChild { c with flags := { c.flags with restart := false } }
  | .int => terminateChild { c with flags := { c.flags with restart := false } }
  | .chld status => decideRestart (waitloop status c)
  | .hup => terminateChild { c with flags := { c.flags with forceRestart := true } }
  | .alrm => achNotify .ok { c with flags := { c.flags with firstRun := false } }
  | .usr1 => achNotify .ok { c with flags := { c.flags with firstRun := false } }
  | .usr2 => c

/-- One round of `while( ! flags.done )`. -/
def round (c : St) (s : Sig) : St := if c.flags.done then c else handle (loopHead c) s

/-- The state `run` begins in. -/
def St.init (restart : Bool) (pidNotify : ℕ) : St where
  flags := ⟨true, restart, false, true, false⟩
  child := none
  exitStatus := exitFailure
  pidNotify := pidNotify
  started := 0
  actions := []

/-- The end of `run`. -/
def finish (c : St) : St := achNotify (if exitSuccess = c.exitStatus then .ok else .fail) c

/-- **`run`** with the signals it takes: the state in which it returns and the status it returns,
or the state in which it waits for one more signal. -/
def run (restart : Bool) (pidNotify : ℕ) (sigs : List Sig) : St × Option ℕ :=
  let c := sigs.foldl round (St.init restart pidNotify)
  if c.flags.done then (finish c, some c.exitStatus) else (loopHead c, none)

end Ach.Cop.Loop
