import Ach.Cop.Loop
import Mathlib.Data.List.Induction

/-! # What `achcop` promises

The flags of the run loop are functions of the signals it has taken: whether one of them said that
the child started well, whether one of them asked to terminate, and whether a restart was asked for
since the current child was started (`Waiting`). From one step lemma follows what the loop promises
about children and notices (`run_supervises`).

A request to terminate clears only one of the two flags that lead to a restart. If a `SIGHUP` was
taken since the current child was started, the child is started again after the request
(`terminate_restarts`); without one the loop ends at the next `SIGCHLD` (`terminate_final_iff`). -/

namespace Ach.Cop.Supervision

open Ach.Cop.Loop

/-! ### The signals taken -/

/-- `SIGTERM` and `SIGINT`. -/
def ends (s : Sig) : Bool := s = .term || s = .int

/-- `SIGALRM` and `SIGUSR1`: the child has started well. -/
def good (s : Sig) : Bool := s = .alrm || s = .usr1

def isChld : Sig → Bool
  | .chld _ => true
  | _ => false

/-- The signals taken since the current child was started. -/
def sinceChild (pre : List Sig) : List Sig := (pre.reverse.takeWhile fun s => !isChld s).reverse

theorem sinceChild_concat (pre : List Sig) (s : Sig) :
    sinceChild (pre ++ [s]) = if isChld s then [] else sinceChild pre ++ [s] := by
  unfold sinceChild
  rw [List.reverse_append, List.reverse_singleton, List.singleton_append]
  cases h : isChld s <;> simp [h]

theorem sinceChild_append {mid : List Sig} (pre : List Sig) (hmid : ∀ s ∈ mid, isChld s = false) :
    sinceChild (pre ++ mid) = sinceChild pre ++ mid := by
  induction mid using List.reverseRecOn with
  | nil => simp
  | append_singleton mid s ih =>
    rw [← List.append_assoc, sinceChild_concat, hmid s (by simp),
      ih fun t ht => hmid t (by simp [ht])]
    simp

/-! ### The children and the notices -/

/-- The children alive after one more action. -/
def aliveStep (l : List ℕ) : Action → List ℕ
  | .fork k => k :: l
  | .reap (some k) _ => l.erase k
  | _ => l

/-- The children started and not reaped. -/
def alive (acts : List Action) : List ℕ := acts.foldl aliveStep []

theorem alive_concat (acts : List Action) (a : Action) :
    alive (acts ++ [a]) = aliveStep (alive acts) a := List.foldl_concat _ _ _ _

/-- The notices sent. -/
def notices (acts : List Action) : List (ℕ × Notice) := acts.filterMap fun a =>
  match a with
  | .notify pid sig => some (pid, sig)
  | _ => none

theorem notices_concat (acts : List Action) (a : Action) :
    notices (acts ++ [a]) = notices acts ++ notices [a] := by
  simp only [notices, List.filterMap_append]

/-- A child is started only where no child is alive. -/
def Tidy (acts : List Action) : Prop := ∀ p k, p ++ [.fork k] <+: acts → alive p = []

theorem Tidy.concat {acts : List Action} {a : Action} (h : Tidy acts)
    (ha : ∀ k, a = .fork k → alive acts = []) : Tidy (acts ++ [a]) := by
  intro p k hp
  rcases List.prefix_concat_iff.mp hp with he | hp
  · obtain ⟨rfl, hk⟩ := List.append_inj' he rfl
    exact ha k (by simpa using hk.symm)
  · exact h p k hp

/-- At most one child is alive at any time. -/
theorem Tidy.alive_le {acts : List Action} (h : Tidy acts) :
    ∀ p, p <+: acts → (alive p).length ≤ 1 := by
  intro p
  induction p using List.reverseRecOn with
  | nil => intro _; exact Nat.zero_le 1
  | append_singleton p a ih =>
    intro hp
    have hle := ih ((List.prefix_append p [a]).trans hp)
    rw [alive_concat]
    cases a with
    | fork k => rw [h p k hp]; exact le_rfl
    | reap child status =>
      cases child with
      | none => exact hle
      | some k => exact (List.length_erase_le).trans hle
    | alarm => exact hle
    | kill child => exact hle
    | notify pid sig => exact hle

/-- The notices sent while the loop takes these signals: one, if the child started well. -/
def noticed (pidNotify : ℕ) (pre : List Sig) : List (ℕ × Notice) :=
  if pre.any good = true ∧ 0 < pidNotify then [(pidNotify, .ok)] else []

/-! ### The loop while it waits -/

/-- **The loop waits** for a signal after it has taken `pre`. -/
structure Waiting (restart : Bool) (pidNotify : ℕ) (pre : List Sig) (c : St) : Prop where
  firstRun : c.flags.firstRun = !pre.any good
  restart : c.flags.restart = (restart && !pre.any ends)
  forceRestart : c.flags.forceRestart = (sinceChild pre).any (· = .hup)
  start : c.flags.start = false
  done : c.flags.done = false
  child : ∃ k, c.child = some k ∧ alive c.actions = [k]
  tidy : Tidy c.actions
  sent : notices c.actions = noticed pidNotify pre
  pidNotify : c.pidNotify = if pre.any good then 0 else pidNotify

/-- **The loop has ended** at a `SIGCHLD`, after it had taken `pre`. -/
structure Ended (pidNotify : ℕ) (pre : List Sig) (status : WaitStatus) (c : St) : Prop where
  done : c.flags.done = true
  exitStatus : c.exitStatus = status.exitStatus
  reaped : ∃ acts k, c.actions = acts ++ [.reap (some k) status] ∧ alive acts = [k]
  none : alive c.actions = []
  tidy : Tidy c.actions
  sent : notices c.actions = noticed pidNotify pre
  pidNotify : c.pidNotify = if pre.any good then 0 else pidNotify

/-- Whether the child is started again when it has ended. -/
def restarts (restart : Bool) (pre : List Sig) (status : WaitStatus) : Bool :=
  (sinceChild pre).any (· = .hup) ||
    (status.exitStatus != exitSuccess && pre.any good && restart && !pre.any ends)

/-- The loop starts a child, which ends an interval without one. -/
theorem loopHead_waiting {restart : Bool} {pidNotify : ℕ} {pre : List Sig} {c : St}
    (hstart : c.flags.start = true) (hdone : c.flags.done = false)
    (hfirst : c.flags.firstRun = !pre.any good)
    (hrestart : c.flags.restart = (restart && !pre.any ends))
    (hforce : (sinceChild pre).any (· = .hup) = false) (halive : alive c.actions = [])
    (htidy : Tidy c.actions)
    (hnotices : notices c.actions = noticed pidNotify pre)
    (hpid : c.pidNotify = if pre.any good then 0 else pidNotify) :
    Waiting restart pidNotify pre (loopHead c) := by
  have hfork : Tidy (c.actions ++ [.fork c.started]) := htidy.concat fun _ _ => halive
  have hone : alive (c.actions ++ [.fork c.started]) = [c.started] := by
    rw [alive_concat, halive]
    rfl
  have hnone : notices (c.actions ++ [.fork c.started]) = notices c.actions := by
    simp [notices]
  unfold loopHead
  rw [if_pos hstart]
  by_cases hf : c.flags.firstRun = true
  · simp only [startChild, hf, if_true]
    refine ⟨by rw [← hfirst, hf], hrestart, hforce.symm, rfl, hdone, ⟨_, rfl, ?_⟩,
      hfork.concat (by simp), ?_, hpid⟩
    · rw [alive_concat, hone]
      rfl
    · rw [← hnotices, ← hnone]
      simp [notices]
  · simp only [startChild, hf]
    exact ⟨by rw [← hfirst]; simp [hf], hrestart, hforce.symm, rfl, hdone, ⟨_, rfl, hone⟩,
      hfork, hnone.trans hnotices, hpid⟩

theorem waiting_init (restart : Bool) (pidNotify : ℕ) :
    Waiting restart pidNotify [] (loopHead (St.init restart pidNotify)) := by
  refine loopHead_waiting rfl rfl rfl (by simp [St.init]) rfl rfl ?_
    (by simp [noticed, notices, St.init])
    rfl
  intro p k hp
  simp [St.init] at hp

section
variable {restart : Bool} {pidNotify : ℕ} {pre : List Sig} {c : St}

/-- A signal that asks for the end of the child. -/
theorem Waiting.terminate (h : Waiting restart pidNotify pre c) {s : Sig} (hs : isChld s = false)
    (hgood : good s = false) {f : Flags} (hfirst : f.firstRun = c.flags.firstRun)
    (hrestart : f.restart = (c.flags.restart && !ends s))
    (hforce : f.forceRestart = (c.flags.forceRestart || s = .hup)) (hstart : f.start = false)
    (hdone : f.done = false) :
    Waiting restart pidNotify (pre ++ [s]) (terminateChild { c with flags := f }) := by
  obtain ⟨k, hchild, halive⟩ := h.child
  have hany : (pre ++ [s]).any good = pre.any good := by simp [hgood]
  refine ⟨?_, ?_, ?_, hstart, hdone, ⟨k, hchild, ?_⟩, h.tidy.concat (by simp), ?_, ?_⟩
  · rw [hany, ← h.firstRun]
    exact hfirst
  · rw [List.any_append, List.any_cons, List.any_nil, Bool.or_false, Bool.not_or, ← Bool.and_assoc,
      ← h.restart]
    exact hrestart
  · rw [sinceChild_concat, hs]
    simp only [Bool.false_eq_true, if_false, List.any_append, List.any_cons, List.any_nil,
      Bool.or_false]
    rw [← h.forceRestart]
    exact hforce
  · rw [terminateChild, alive_concat, halive]
    rfl
  · rw [noticed, hany, ← noticed, ← h.sent]
    simp [terminateChild, notices]
  · rw [hany, ← h.pidNotify]
    rfl

/-- A signal that says that the child has started well. -/
theorem Waiting.notify (h : Waiting restart pidNotify pre c) {s : Sig}
    (hs : good s = true) (hends : ends s = false) (hhup : s ≠ .hup) (hchld : isChld s = false) :
    Waiting restart pidNotify (pre ++ [s])
      (achNotify .ok { c with flags := { c.flags with firstRun := false } }) := by
  obtain ⟨k, hchild, halive⟩ := h.child
  have hany : (pre ++ [s]).any good = true := by simp [hs]
  have hrestart : c.flags.restart = (restart && !(pre ++ [s]).any ends) := by
    rw [h.restart]
    simp [hends]
  have hforce : c.flags.forceRestart = (sinceChild (pre ++ [s])).any (· = .hup) := by
    rw [h.forceRestart, sinceChild_concat, hchld]
    simp [hhup]
  unfold achNotify
  by_cases hp : 0 < c.pidNotify
  · have hg : pre.any good = false ∧ c.pidNotify = pidNotify := by
      have hpid := h.pidNotify
      split_ifs at hpid with hg
      · omega
      · exact ⟨by simpa using hg, hpid⟩
    rw [if_pos hp]
    refine ⟨by rw [hany]; rfl, hrestart, hforce, h.start, h.done, ⟨k, hchild, ?_⟩,
      h.tidy.concat (by simp), ?_, by rw [hany]; rfl⟩
    · rw [alive_concat, halive]
      rfl
    · have hnone : notices c.actions = [] := by simp [h.sent, noticed, hg.1]
      rw [notices_concat, hnone, noticed, if_pos ⟨hany, hg.2 ▸ hp⟩, hg.2]
      rfl
  · -- the notice has been sent before, or there is nobody to notify
    have hzero : c.pidNotify = 0 := Nat.eq_zero_of_not_pos hp
    rw [if_neg hp]
    refine ⟨by rw [hany]; rfl, hrestart, hforce, h.start, h.done, ⟨k, hchild, halive⟩, h.tidy, ?_,
      by rw [hany]; exact hzero⟩
    rw [show notices _ = _ from h.sent, noticed, noticed, hany]
    have hpid := h.pidNotify
    cases hg : pre.any good <;> simp_all

/-- The step lemma, for a signal that is not `SIGCHLD`: the loop goes on to wait. -/
theorem Waiting.handle (h : Waiting restart pidNotify pre c) {s : Sig} (hs : isChld s = false) :
    Waiting restart pidNotify (pre ++ [s]) (handle c s) := by
  cases s with
  | int => exact h.terminate rfl rfl rfl (by simp [ends]) (by simp) h.start h.done
  | term => exact h.terminate rfl rfl rfl (by simp [ends]) (by simp) h.start h.done
  | hup => exact h.terminate rfl rfl rfl (by simp [ends]) (by simp) h.start h.done
  | alrm => exact h.notify rfl rfl (by simp) rfl
  | usr1 => exact h.notify rfl rfl (by simp) rfl
  | usr2 =>
    obtain ⟨k, hchild, halive⟩ := h.child
    have hsince : sinceChild (pre ++ [.usr2]) = sinceChild pre ++ [.usr2] := sinceChild_concat _ _
    rw [show Loop.handle c .usr2 = c from rfl]
    refine ⟨?_, ?_, ?_, h.start, h.done, ⟨k, hchild, halive⟩, h.tidy, ?_, ?_⟩
    · simpa [good] using h.firstRun
    · simpa [ends] using h.restart
    · rw [hsince]
      simpa using h.forceRestart
    · rw [h.sent]
      simp [noticed, good]
    · simpa [good] using h.pidNotify
  | chld status => simp [isChld] at hs

/-- The loop has taken note of the end of the child and has the given flags. -/
def reaped (c : St) (status : WaitStatus) (f : Flags) : St :=
  { c with
    flags := f
    exitStatus := status.exitStatus
    actions := c.actions ++ [.reap c.child status] }

/-- After the end of the child none is alive, and nobody has been notified of it. -/
theorem Waiting.reaped_quiet (h : Waiting restart pidNotify pre c) (status : WaitStatus) :
    alive (c.actions ++ [.reap c.child status]) = [] ∧
      Tidy (c.actions ++ [.reap c.child status]) ∧
      notices (c.actions ++ [.reap c.child status]) = notices c.actions := by
  obtain ⟨k, hchild, halive⟩ := h.child
  refine ⟨?_, h.tidy.concat (by simp), by simp [notices]⟩
  rw [alive_concat, halive, hchild]
  simp [aliveStep]

theorem Waiting.reaped_ended (h : Waiting restart pidNotify pre c) (status : WaitStatus) {f : Flags}
    (hf : f.done = true) : Ended pidNotify pre status (reaped c status f) := by
  obtain ⟨k, hchild, halive⟩ := h.child
  obtain ⟨hgone, htidy, hnotices⟩ := h.reaped_quiet status
  have hreap : c.actions ++ [.reap c.child status] = c.actions ++ [.reap (some k) status] := by
    rw [hchild]
  exact ⟨hf, rfl, ⟨c.actions, k, hreap, halive⟩, hgone, htidy, hnotices.trans h.sent, h.pidNotify⟩

theorem Waiting.reaped_again (h : Waiting restart pidNotify pre c) (status : WaitStatus) {f : Flags}
    (hstart : f.start = true) (hdone : f.done = false) (hfirst : f.firstRun = c.flags.firstRun)
    (hrestart : f.restart = c.flags.restart) :
    Waiting restart pidNotify (pre ++ [.chld status]) (loopHead (reaped c status f)) := by
  obtain ⟨hgone, htidy, hnotices⟩ := h.reaped_quiet status
  have hgood : (pre ++ [Sig.chld status]).any good = pre.any good := by simp [good]
  have hends : (pre ++ [Sig.chld status]).any ends = pre.any ends := by simp [ends]
  refine loopHead_waiting hstart hdone ?_ ?_ ?_ hgone htidy ?_ ?_
  · rw [hgood, ← h.firstRun]
    exact hfirst
  · rw [hends, ← h.restart]
    exact hrestart
  · rw [sinceChild_concat]
    rfl
  · rw [noticed, hgood, ← noticed]
    exact hnotices.trans h.sent
  · rw [hgood]
    exact h.pidNotify

/-- **The step lemma, for `SIGCHLD`:** the child is started again, or the loop ends. -/
theorem Waiting.handle_chld (h : Waiting restart pidNotify pre c) (status : WaitStatus) :
    if restarts restart pre status then
      Waiting restart pidNotify (pre ++ [.chld status])
          (loopHead (Loop.handle c (.chld status))) ∧
        (Loop.handle c (.chld status)).flags.done = false
    else Ended pidNotify pre status (Loop.handle c (.chld status)) := by
  simp only [Loop.handle, decideRestart, waitloop]
  unfold restarts
  by_cases hforce : c.flags.forceRestart = true
  · have hf : (sinceChild pre).any (· = .hup) = true := by rw [← h.forceRestart, hforce]
    simp only [hf, hforce, Bool.true_or, if_true]
    exact ⟨h.reaped_again status rfl h.done rfl rfl, h.done⟩
  have hf : (sinceChild pre).any (· = .hup) = false := by
    rw [← h.forceRestart]
    simpa using hforce
  rw [hf, Bool.false_or]
  simp only [hforce, Bool.false_eq_true, if_false]
  by_cases hzero : exitSuccess = status.exitStatus
  · simp only [← hzero, bne_self_eq_false, Bool.false_and, Bool.false_eq_true, if_false, if_true]
    exact hzero ▸ h.reaped_ended status rfl
  have hne : (status.exitStatus != exitSuccess) = true := by
    simpa using fun he => hzero (Eq.symm he)
  simp only [hzero, if_false, hne, Bool.true_and]
  cases hg : pre.any good with
  | false =>
    have hfirst : c.flags.firstRun = true := by rw [h.firstRun, hg]; rfl
    simp only [hfirst, if_true, Bool.false_and, Bool.false_eq_true, if_false]
    exact h.reaped_ended status rfl
  | true =>
    have hfirst : c.flags.firstRun = false := by rw [h.firstRun, hg]; rfl
    simp only [hfirst, Bool.false_eq_true, if_false, Bool.true_and, ← h.restart]
    cases hr : c.flags.restart with
    | true =>
      simp only [if_true]
      exact ⟨h.reaped_again status rfl h.done hfirst.symm hr.symm, h.done⟩
    | false =>
      simp only [Bool.false_eq_true, if_false]
      exact h.reaped_ended status rfl

end

/-! ### Runs -/

section
variable (restart : Bool) (pidNotify : ℕ)

/-- `run` still waits after it has taken these signals. -/
def Running (sigs : List Sig) : Prop := (run restart pidNotify sigs).2 = none

variable {restart pidNotify}

theorem run_eq {sigs : List Sig} (h : Running restart pidNotify sigs) :
    (sigs.foldl Loop.round (St.init restart pidNotify)).flags.done = false ∧
      run restart pidNotify sigs =
        (loopHead (sigs.foldl Loop.round (St.init restart pidNotify)), none) := by
  unfold Running run at h
  unfold run
  cases hd : (sigs.foldl Loop.round (St.init restart pidNotify)).flags.done <;> simp_all

/-- One more signal. -/
theorem run_concat {sigs : List Sig} (h : Running restart pidNotify sigs) (s : Sig) :
    run restart pidNotify (sigs ++ [s]) =
      let c := handle (run restart pidNotify sigs).1 s
      if c.flags.done then (finish c, some c.exitStatus) else (loopHead c, none) := by
  obtain ⟨hdone, hrun⟩ := run_eq h
  rw [hrun]
  simp [run, Loop.round, hdone]

/-- A signal that comes after `run` has returned is not taken. -/
theorem run_concat_of_returned {sigs : List Sig} (h : ¬ Running restart pidNotify sigs) (s : Sig) :
    run restart pidNotify (sigs ++ [s]) = run restart pidNotify sigs := by
  have hdone : (sigs.foldl Loop.round (St.init restart pidNotify)).flags.done = true := by
    by_contra hd
    exact h (by simp [Running, run, hd])
  simp [run, Loop.round, hdone]

theorem Running.init {sigs : List Sig} {s : Sig} (h : Running restart pidNotify (sigs ++ [s])) :
    Running restart pidNotify sigs := by
  by_contra hn
  rw [Running, run_concat_of_returned hn] at h
  exact hn h

theorem Running.of_append {sigs post : List Sig} (h : Running restart pidNotify (sigs ++ post)) :
    Running restart pidNotify sigs := by
  induction post using List.reverseRecOn with
  | nil => simpa using h
  | append_singleton post s ih =>
    rw [← List.append_assoc] at h
    exact ih h.init

theorem run_append_of_returned {sigs : List Sig} (h : ¬ Running restart pidNotify sigs) :
    ∀ post, run restart pidNotify (sigs ++ post) = run restart pidNotify sigs := by
  intro post
  induction post using List.reverseRecOn with
  | nil => rw [List.append_nil]
  | append_singleton post s ih =>
    rw [← List.append_assoc, run_concat_of_returned (by rw [Running, ih]; exact h), ih]

/-- **The run lemma.** -/
theorem running_waiting {sigs : List Sig} (h : Running restart pidNotify sigs) :
    Waiting restart pidNotify sigs (run restart pidNotify sigs).1 := by
  induction sigs using List.reverseRecOn with
  | nil => exact waiting_init restart pidNotify
  | append_singleton pre s ih =>
    have hinit := h.init
    have hw := ih hinit
    rw [Running, run_concat hinit] at h
    rw [run_concat hinit]
    cases hs : isChld s with
    | false =>
      have hstep := hw.handle hs
      have hhead : loopHead (handle (run restart pidNotify pre).1 s) =
          handle (run restart pidNotify pre).1 s := by
        simp [loopHead, hstep.start]
      simp only [hstep.done, Bool.false_eq_true, if_false, hhead]
      exact hstep
    | true =>
      obtain ⟨status, rfl⟩ : ∃ status, s = .chld status := by
        cases s <;> simp_all [isChld]
      have hstep := hw.handle_chld status
      split_ifs at hstep with hre
      · simp only [hstep.2, Bool.false_eq_true, if_false]
        exact hstep.1
      · simp [hstep.done] at h

/-- **A `SIGCHLD`** that the loop takes: it goes on if and only if the child is started again. -/
theorem run_chld {pre : List Sig} (h : Running restart pidNotify pre) (status : WaitStatus) :
    if restarts restart pre status then Running restart pidNotify (pre ++ [.chld status])
    else ∃ c, run restart pidNotify (pre ++ [.chld status]) =
        (finish c, some status.exitStatus) ∧ Ended pidNotify pre status c ∧
          c.started = (run restart pidNotify pre).1.started := by
  have hstep := (running_waiting h).handle_chld status
  split_ifs at hstep ⊢ with hre
  · rw [Running, run_concat h]
    simp [hstep.2]
  · refine ⟨_, ?_, hstep, ?_⟩
    · rw [run_concat h]
      simp [hstep.done, hstep.exitStatus]
    · simp [handle, waitloop]

/-- A child that is not started again ends the run, whatever signals come after it. -/
theorem run_ends {pre : List Sig} (h : Running restart pidNotify pre) {status : WaitStatus}
    (hno : restarts restart pre status = false) (rest : List Sig) :
    ∃ c, run restart pidNotify (pre ++ .chld status :: rest) = (finish c, some status.exitStatus) ∧
      c.started = (run restart pidNotify pre).1.started := by
  have hchld := run_chld h status
  rw [hno] at hchld
  obtain ⟨c, hc, -, hstarted⟩ := hchld
  have hret : ¬ Running restart pidNotify (pre ++ [.chld status]) := by
    rw [Running, hc]
    simp
  have hall := run_append_of_returned hret rest
  rw [List.append_assoc, List.singleton_append, hc] at hall
  exact ⟨c, hall, hstarted⟩

/-- Signals other than `SIGCHLD` neither end the loop nor start a child. -/
theorem running_append {pre mid : List Sig} (h : Running restart pidNotify pre)
    (hmid : ∀ s ∈ mid, isChld s = false) : Running restart pidNotify (pre ++ mid) ∧
      (run restart pidNotify (pre ++ mid)).1.started = (run restart pidNotify pre).1.started := by
  induction mid using List.reverseRecOn with
  | nil => simpa using h
  | append_singleton mid s ih =>
    obtain ⟨hrun, hstarted⟩ := ih fun t ht => hmid t (by simp [ht])
    have hs : isChld s = false := hmid s (by simp)
    have hstep := (running_waiting hrun).handle hs
    have hsame : (handle (run restart pidNotify (pre ++ mid)).1 s).started =
        (run restart pidNotify (pre ++ mid)).1.started := by
      cases s <;> simp [handle, terminateChild, isChld] at hs ⊢
    rw [← List.append_assoc, Running, run_concat hrun]
    simp [hstep.done, loopHead, hstep.start, hsame, hstarted]

end

/-! ### Requests to terminate -/

section
variable (restart : Bool) (pidNotify : ℕ)

/-- **A request to terminate is final:** after `pre` and the request, whatever comes then, no child
is started any more, and at the next `SIGCHLD` `run` returns the status of that child. -/
def Final (pre : List Sig) (t : Sig) (post : List Sig) : Prop :=
  (run restart pidNotify (pre ++ t :: post)).1.started = (run restart pidNotify pre).1.started ∧
    ∀ mid status rest, post = mid ++ .chld status :: rest → (∀ s ∈ mid, isChld s = false) →
      (run restart pidNotify (pre ++ t :: (mid ++ [.chld status]))).2 = some status.exitStatus

theorem eq_chld {s : Sig} (h : isChld s = true) : ∃ status, s = .chld status := by
  cases s with
  | chld status => exact ⟨status, rfl⟩
  | _ => simp [isChld] at h

/-- The first `SIGCHLD` of a list of signals, if there is one. -/
theorem split_chld (post : List Sig) : (∀ s ∈ post, isChld s = false) ∨
    ∃ mid status rest, post = mid ++ .chld status :: rest ∧ ∀ s ∈ mid, isChld s = false := by
  induction post with
  | nil => exact Or.inl (by simp)
  | cons s post ih =>
    cases hs : isChld s with
    | true =>
      obtain ⟨status, rfl⟩ := eq_chld hs
      exact Or.inr ⟨[], status, post, rfl, by simp⟩
    | false =>
      rcases ih with h | ⟨mid, status, rest, rfl, h⟩
      · exact Or.inl (by simpa [hs] using h)
      · exact Or.inr ⟨s :: mid, status, rest, rfl, by simpa [hs] using h⟩

/-- **When a request to terminate is final:** if and only if no `SIGHUP` is taken between the start
of the current child and its end. -/
theorem terminate_final_iff {pre : List Sig} (hrun : Running restart pidNotify pre) {t : Sig}
    (ht : t = .term ∨ t = .int) (post : List Sig) :
    Final restart pidNotify pre t post ↔
      ∀ mid status rest, post = mid ++ .chld status :: rest → (∀ s ∈ mid, isChld s = false) →
        .hup ∉ sinceChild pre ++ mid := by
  have htc : isChld t = false := by rcases ht with rfl | rfl <;> rfl
  have hte : ends t = true := by rcases ht with rfl | rfl <;> rfl
  have hth : t ≠ .hup := by rcases ht with rfl | rfl <;> simp
  -- the state in which the SIGCHLD that follows is taken
  have hmid : ∀ mid, (∀ s ∈ mid, isChld s = false) →
      Running restart pidNotify (pre ++ t :: mid) ∧
        (run restart pidNotify (pre ++ t :: mid)).1.started =
          (run restart pidNotify pre).1.started ∧
        ∀ status, (restarts restart (pre ++ t :: mid) status = true ↔
          .hup ∈ sinceChild pre ++ mid) := by
    intro mid hm
    have hall : ∀ s ∈ t :: mid, isChld s = false := by simpa [htc] using hm
    obtain ⟨h1, h2⟩ := running_append hrun hall
    refine ⟨h1, h2, fun status => ?_⟩
    have hends : (pre ++ t :: mid).any ends = true := by simp [hte]
    rw [restarts, hends, Bool.not_true, Bool.and_false, Bool.or_false,
      sinceChild_append pre hall]
    simp [hth]
  constructor
  · rintro ⟨-, hfinal⟩ mid status rest hpost hm hhup
    obtain ⟨h1, -, h3⟩ := hmid mid hm
    have hchld := run_chld h1 status
    rw [if_pos ((h3 status).mpr hhup)] at hchld
    have hret := hfinal mid status rest hpost hm
    rw [← List.cons_append, ← List.append_assoc, hchld] at hret
    simp at hret
  · intro hcond
    have hend : ∀ mid status rest, post = mid ++ .chld status :: rest →
        (∀ s ∈ mid, isChld s = false) → ∀ rest', ∃ c,
        run restart pidNotify (pre ++ t :: (mid ++ .chld status :: rest')) =
          (finish c, some status.exitStatus) ∧
        c.started = (run restart pidNotify pre).1.started := by
      intro mid status rest hpost hm rest'
      obtain ⟨h1, h2, h3⟩ := hmid mid hm
      have hno : restarts restart (pre ++ t :: mid) status = false :=
        Bool.eq_false_iff.mpr fun hr => hcond mid status rest hpost hm ((h3 status).mp hr)
      obtain ⟨c, hc, hstarted⟩ := run_ends h1 hno rest'
      exact ⟨c, by rw [← List.cons_append, ← List.append_assoc, hc], by rw [hstarted, h2]⟩
    refine ⟨?_, fun mid status rest hpost hm => ?_⟩
    · rcases split_chld post with hno | ⟨mid, status, rest, rfl, hm⟩
      · exact (hmid post hno).2.1
      · obtain ⟨c, hc, hstarted⟩ := hend mid status rest rfl hm rest
        rw [hc, ← hstarted]
        simp [finish]
    · obtain ⟨c, hc, -⟩ := hend mid status rest hpost hm []
      rw [hc]

/-- A request to terminate before any news of the child, which then exits with status 3. -/
theorem terminate_final_iff_sample :
    Running true 9 [.hup, .chld (.exited 1), .alrm] ∧
      (Final true 9 [.hup, .chld (.exited 1), .alrm] .term [.usr2, .chld (.exited 3), .hup] ↔
        ∀ mid status rest, [.usr2, .chld (.exited 3), .hup] = mid ++ Sig.chld status :: rest →
          (∀ s ∈ mid, isChld s = false) →
            .hup ∉ sinceChild [.hup, .chld (.exited 1), .alrm] ++ mid) := by
  have hrun : Running true 9 [.hup, .chld (.exited 1), .alrm] := rfl
  exact ⟨hrun, terminate_final_iff true 9 hrun (Or.inl rfl) _⟩

/-- **`SIGHUP`, then `SIGTERM`:** the child is started again, and the loop goes on. -/
theorem terminate_restarts : Running false 9 [.hup] ∧
    ¬ Final false 9 [.hup] .term [.chld (.signaled 15)] ∧
    (run false 9 [.hup, .term, .chld (.signaled 15)]).1.actions =
      [.fork 0, .alarm, .kill (some 0), .kill (some 0), .reap (some 0) (.signaled 15), .fork 1,
        .alarm] := by
  refine ⟨rfl, ?_, by decide⟩
  rintro ⟨-, hfinal⟩
  have h := hfinal [] (.signaled 15) [] rfl (by simp)
  revert h
  decide

end

/-! ### Children and notices -/

section
variable (restart : Bool) (pidNotify : ℕ)

/-- **What the loop promises** about the signals it has taken. -/
structure Supervised (sigs : List Sig) : Prop where
  /-- At most one child exists at any time. -/
  single : ∀ p, p <+: (run restart pidNotify sigs).1.actions → (alive p).length ≤ 1
  /-- A child is started only when the one before has been reaped. -/
  next : ∀ p k, p ++ [.fork k] <+: (run restart pidNotify sigs).1.actions → alive p = []
  /-- `run` returns with the status of the current child, which has been reaped. -/
  returns : ∀ code, (run restart pidNotify sigs).2 = some code → ∃ pre status acts k rest,
    sigs = pre ++ [.chld status] ∧ code = status.exitStatus ∧ alive acts = [k] ∧
      (run restart pidNotify sigs).1.actions = acts ++ .reap (some k) status :: rest ∧
        alive (run restart pidNotify sigs).1.actions = []
  /-- A child that fails before it has started well is started again only after `SIGHUP`. -/
  failing : ∀ pre status post, sigs = pre ++ .chld status :: post →
    status.exitStatus ≠ exitSuccess → pre.any good = false → .hup ∉ sinceChild pre →
      (run restart pidNotify sigs).2 = some status.exitStatus ∧
        (run restart pidNotify sigs).1.started = (run restart pidNotify pre).1.started
  /-- The first signal that says that the child has started well is passed on. -/
  first : ∀ pre s post, sigs = pre ++ s :: post → good s = true → pre.any good = false →
    notices (run restart pidNotify pre).1.actions = [] ∧
      notices (run restart pidNotify (pre ++ [s])).1.actions = [(pidNotify, .ok)]
  /-- By the time `run` returns there has been one notice, and only one. -/
  once : ∀ code, (run restart pidNotify sigs).2 = some code →
    notices (run restart pidNotify sigs).1.actions =
      [(pidNotify, if sigs.any good = true ∨ code = exitSuccess then .ok else .fail)]

/-- The loop takes all of these signals: it still waits before the last one. -/
def Taken (sigs : List Sig) : Prop := Running restart pidNotify sigs.dropLast

variable {restart pidNotify}

theorem Taken.running {sigs pre post : List Sig} {s : Sig} (h : Taken restart pidNotify sigs)
    (hsigs : sigs = pre ++ s :: post) : Running restart pidNotify pre := by
  rw [Taken, hsigs, List.dropLast_append_of_ne_nil (by simp)] at h
  exact h.of_append

/-- How a run ends. -/
theorem ended_of_returned {sigs : List Sig} (hdel : Taken restart pidNotify sigs)
    (h : ¬ Running restart pidNotify sigs) : ∃ pre status c, sigs = pre ++ [.chld status] ∧
      Running restart pidNotify pre ∧
      run restart pidNotify sigs = (finish c, some status.exitStatus) ∧
      Ended pidNotify pre status c := by
  rcases List.eq_nil_or_concat sigs with rfl | ⟨pre, s, rfl⟩
  · exact absurd rfl h
  rw [List.concat_eq_append] at hdel h ⊢
  have hpre := hdel.running rfl
  cases hs : isChld s with
  | false => exact absurd (running_append hpre (by simpa using hs)).1 h
  | true =>
    obtain ⟨status, rfl⟩ : ∃ status, s = .chld status := by cases s <;> simp_all [isChld]
    have hchld := run_chld hpre status
    split_ifs at hchld with hre
    · exact absurd hchld h
    · obtain ⟨c, hc, hend, -⟩ := hchld
      exact ⟨pre, status, c, rfl, hpre, hc, hend⟩

/-- The notice sent at the end changes nothing about the children. -/
theorem finish_actions (c : St) : ∃ l, (finish c).actions = c.actions ++ l ∧
    alive (finish c).actions = alive c.actions ∧ (Tidy c.actions → Tidy (finish c).actions) := by
  unfold finish achNotify
  by_cases hp : 0 < c.pidNotify
  · rw [if_pos hp]
    refine ⟨_, rfl, ?_, fun ht => ht.concat (by simp)⟩
    rw [alive_concat]
    rfl
  · rw [if_neg hp]
    exact ⟨[], by simp, rfl, id⟩

/-- **The loop keeps its promises**, whatever signals it takes, in whatever order. -/
theorem run_supervises (hpid : 0 < pidNotify) {sigs : List Sig}
    (hdel : Taken restart pidNotify sigs) : Supervised restart pidNotify sigs := by
  have htidy : Tidy (run restart pidNotify sigs).1.actions := by
    by_cases h : Running restart pidNotify sigs
    · exact (running_waiting h).tidy
    · obtain ⟨pre, status, c, -, -, hc, hend⟩ := ended_of_returned hdel h
      obtain ⟨l, -, -, ht⟩ := finish_actions c
      rw [hc]
      exact ht hend.tidy
  have hreturned : ∀ code, (run restart pidNotify sigs).2 = some code →
      ¬ Running restart pidNotify sigs := by
    intro code hcode hr
    rw [hr] at hcode
    simp at hcode
  refine ⟨htidy.alive_le, htidy, ?_, ?_, ?_, ?_⟩
  · intro code hcode
    obtain ⟨pre, status, c, hsigs, -, hc, hend⟩ := ended_of_returned hdel (hreturned code hcode)
    obtain ⟨acts, k, hacts, hk⟩ := hend.reaped
    obtain ⟨l, hl, hal, -⟩ := finish_actions c
    rw [hc] at hcode ⊢
    refine ⟨pre, status, acts, k, l, hsigs, (Option.some.inj hcode).symm, hk, ?_, ?_⟩
    · rw [hl, hacts, List.append_assoc, List.singleton_append]
    · rw [hal, hend.none]
  · intro pre status post hsigs hcode hgood hhup
    have hpre := hdel.running hsigs
    have hnot : ∀ s ∈ sinceChild pre, ¬ s = .hup := by
      rintro s hs rfl
      exact hhup hs
    have hno : restarts restart pre status = false := by
      simpa [restarts, hgood] using hnot
    obtain ⟨c, hc, hstarted⟩ := run_ends hpre hno post
    rw [hsigs, hc]
    exact ⟨rfl, by simpa [finish] using hstarted⟩
  · intro pre s post hsigs hs hgood
    have hpre := hdel.running hsigs
    have hchld : isChld s = false := by cases s <;> simp_all [good, isChld]
    have hall : ∀ t ∈ [s], isChld t = false := by simpa using hchld
    have hnext := (running_append hpre hall).1
    refine ⟨?_, ?_⟩
    · rw [(running_waiting hpre).sent, noticed, hgood]
      simp
    · rw [(running_waiting hnext).sent, noticed, if_pos ⟨by simp [hs], hpid⟩]
  · intro code hcode
    obtain ⟨pre, status, c, rfl, -, hc, hend⟩ := ended_of_returned hdel (hreturned code hcode)
    rw [hc] at hcode ⊢
    obtain rfl := Option.some.inj hcode
    have hany : (pre ++ [Sig.chld status]).any good = pre.any good := by simp [good]
    rw [hany, finish, achNotify]
    cases hg : pre.any good with
    | true =>
      have hp : c.pidNotify = 0 := by simp [hend.pidNotify, hg]
      simp [hp, hend.sent, noticed, hg, hpid]
    | false =>
      have hp : c.pidNotify = pidNotify := by simp [hend.pidNotify, hg]
      have hnone : notices c.actions = [] := by simp [hend.sent, noticed, hg]
      simp only [hp, hpid, if_true]
      rw [notices_concat, hnone, hend.exitStatus]
      simp [notices, eq_comm]

/-- A child that is restarted on `SIGHUP`, started well, crashed, was restarted and succeeded. -/
theorem run_supervises_sample :
    Supervised true 9 [.hup, .chld (.exited 1), .usr1, .chld (.signaled 11), .alrm,
      .chld (.exited 0)] := by
  exact run_supervises (by decide) rfl

end

end Ach.Cop.Supervision
