import Ach.Channel.Frame
import Ach.Sync.Machine

/-! # Who holds the mutex

The invariant of the interleaved system (`Owned`): the mutex is held if and only if one party is at
a point at which it holds it, and then it is the only one; the dirty flag is set only while a put
holds the mutex. On a state that satisfies it every lock that is taken succeeds, and a step of a
handle is one of the ten that `Adv` lists. -/

namespace Ach.Sync.Lockset

open Ach.Lib.Run
open Ach.Channel.Types Ach.Channel.Lock Ach.Channel.Put Ach.Channel.Get
open Ach.Channel.PutSpec Ach.Channel.Frame Ach.Channel.Invariant
open Ach.Sync.Machine

variable {H : Type}

/-! ### The steps of a handle -/

/-- A put that holds the mutex and has the dirty flag set. -/
def writes : Pc → Bool
  | .putBody _ _ got | .putClear got => got
  | _ => false

/-- A put that goes on without the mutex. -/
def stray : Pc → Bool
  | .putBody _ _ got | .putClear got | .putUnlock got => !got
  | _ => false

/-- A put that has changed the channel and has not broadcast yet. -/
def publishing : Pc → Bool
  | .putClear _ | .putUnlock _ | .putBroadcast => true
  | _ => false

/-- **The steps of a handle** on a channel whose lock is in order. -/
inductive Adv (shm : AchHeader) (chan : AchChannel) : Pc → Move → Prop
  | acquire {p : Pc} {r : ReadOp} (hp : p = .lock r ∨ p = .woken r) (hm : shm.mutex ≠ .held) :
      Adv shm chan p ⟨setMutex .held shm, chan, .loop r, false⟩
  | canceled {r : ReadOp} (hc : chan.cancel = true) :
      Adv shm chan (.loop r) ⟨shm, chan, .release (r.fail .canceled), false⟩
  | mustWait {r : ReadOp} (hc : chan.cancel = false) (hw : r.wait = true)
      (hs : chan.seqNum = shm.lastSeq) : Adv shm chan (.loop r) ⟨shm, chan, .toWait r, false⟩
  | goOn {r : ReadOp} (hc : chan.cancel = false) :
      Adv shm chan (.loop r) ⟨shm, chan, .body r, false⟩
  | wait {r : ReadOp} : Adv shm chan (.toWait r) ⟨setMutex .free shm, chan, .blocked r, false⟩
  | body {r : ReadOp} {chan' : AchChannel} {ret : Ret} (hs : SameHandle chan chan')
      (hr : ret.isRead = true) : Adv shm chan (.body r) ⟨shm, chan', .unrdlock ret, false⟩
  | unlock {p : Pc} {ret ret' : Ret} (hp : p = .unrdlock ret ∨ p = .release ret)
      (hr : ret'.isRead = ret.isRead) :
      Adv shm chan p ⟨setMutex .free shm, chan, .done ret', false⟩
  | putLock {buf : ℕ → UInt8} {len : ℕ} (hm : shm.mutex ≠ .held) :
      Adv shm chan (.putLock buf len)
        ⟨{ shm with mutex := .held, dirty := true }, chan, .putBody buf len true, false⟩
  | putBody {buf : ℕ → UInt8} {len : ℕ} {shm' : AchHeader} (hf : fixedPart shm' = fixedPart shm) :
      Adv shm chan (.putBody buf len true) ⟨shm', chan, .putClear true, false⟩
  | putClear : Adv shm chan (.putClear true)
      ⟨{ shm with dirty := false }, chan, .putUnlock true, false⟩
  | putUnlock : Adv shm chan (.putUnlock true) ⟨setMutex .free shm, chan, .putBroadcast, false⟩
  | putBroadcast : Adv shm chan .putBroadcast ⟨shm, chan, .done (.put .ok), true⟩

/-- What a handle at `p` can rely on. -/
structure InOrder (shm : AchHeader) (p : Pc) : Prop where
  held : p.holds = true → shm.mutex = .held
  free : shm.mutex ≠ .held → (shm.mutex = .free ∨ shm.mutex = .abandoned) ∧ shm.dirty = false
  got : stray p = false

section
variable {shm : AchHeader}

theorem moveOn_eq_some {α : Type} {o : Outcome (α × AchHeader)} {f : α → AchHeader → Move}
    {m : Move} (h : moveOn o f = some m) : ∃ a s, o = .ok (a, s) ∧ f a s = m := by
  unfold moveOn at h
  split at h
  · rename_i a s
    exact ⟨a, s, rfl, Option.some.inj h⟩
  · simp at h

theorem out_chanLock_order (dbg : Bool) (hm : shm.mutex = .free ∨ shm.mutex = .abandoned)
    (hd : shm.dirty = false) : out chanLock dbg shm = .ok (.ok, setMutex .held shm) := by
  rcases hm with hm | hm <;>
    simp [chanLock, pthreadMutexLock, checkLock, pthreadMutexConsistent, checkDirty, hm, hd,
      setMutex]

theorem out_relock_order (dbg : Bool) (hm : shm.mutex = .free ∨ shm.mutex = .abandoned)
    (hd : shm.dirty = false) :
    out (pthreadMutexLock >>= fun i => checkLock i true) dbg shm =
      .ok (.ok, setMutex .held shm) := by
  rcases hm with hm | hm <;>
    simp [pthreadMutexLock, checkLock, pthreadMutexConsistent, checkDirty, hm, hd, setMutex]

theorem out_wrlock_order (dbg : Bool) (hm : shm.mutex = .free ∨ shm.mutex = .abandoned)
    (hd : shm.dirty = false) :
    out wrlock dbg shm = .ok (.ok, { shm with mutex := .held, dirty := true }) := by
  unfold wrlock
  rw [out_bind, out_chanLock_order dbg hm hd]
  simp only [Outcome.bind_ok, ne_eq, not_true_eq_false, if_false, out_bind, out_load, setMutex,
    out_assert hd, out_store, out_pure]

theorem out_pthreadMutexUnlock_held (dbg : Bool) (hm : shm.mutex = .held) :
    out pthreadMutexUnlock dbg shm = .ok (.zero, setMutex .free shm) := by
  simp [pthreadMutexUnlock, hm]

theorem isRead_afterUnlock (st : AchStatus) (ret : Ret) :
    (ret.afterUnlock st).isRead = ret.isRead := by
  cases ret <;> rfl

/-- **Every step is one of those.** -/
theorem advance_cases {dbg : Bool} {chan : AchChannel} {p : Pc} {m : Move} (ho : InOrder shm p)
    (h : advance dbg shm chan p = some m) : Adv shm chan p m := by
  cases p with
  | idle => simp [advance] at h
  | dead => simp [advance] at h
  | blocked r => simp [advance] at h
  | done ret => simp [advance] at h
  | lock r =>
    by_cases hm : shm.mutex = .held
    · simp [advance, hm] at h
    · obtain ⟨hfree, hd⟩ := ho.free hm
      rw [advance, if_neg hm, out_chanLock_order dbg hfree hd] at h
      obtain rfl := Option.some.inj h
      exact .acquire (Or.inl rfl) hm
  | loop r =>
    rw [advance] at h
    obtain rfl := Option.some.inj h
    cases hc : chan.cancel with
    | true => simpa [hc] using Adv.canceled hc
    | false =>
      by_cases hw : r.wait = true ∧ chan.seqNum = shm.lastSeq
      · simpa [hc, hw] using Adv.mustWait hc hw.1 hw.2
      · simpa [hc, hw] using Adv.goOn hc
  | toWait r =>
    rw [advance] at h
    obtain rfl := Option.some.inj h
    exact .wait
  | woken r =>
    by_cases hm : shm.mutex = .held
    · simp [advance, hm] at h
    · obtain ⟨hfree, hd⟩ := ho.free hm
      rw [advance, if_neg hm, out_relock_order dbg hfree hd] at h
      obtain rfl := Option.some.inj h
      exact .acquire (Or.inr rfl) hm
  | body r =>
    cases r with
    | get size abstime opts =>
      obtain ⟨a, s, ha, rfl⟩ := moveOn_eq_some h
      obtain ⟨rfl, hsame⟩ := (getCritical_holds (P := (· = shm)) (C := fun _ => True) chan size opts
        dbg shm rfl).2 _ _ ha
      exact .body hsame rfl
    | flush =>
      rw [advance] at h
      obtain ⟨a, s, ha, rfl⟩ := moveOn_eq_some h
      obtain ⟨rfl, hsame⟩ := (flushCritical_holds (P := (· = shm)) (C := fun _ => True) chan dbg shm
        rfl).2 _ _ ha
      exact .body hsame rfl
  | unrdlock ret =>
    obtain ⟨st, s, hs, rfl⟩ := moveOn_eq_some h
    obtain rfl : setMutex .free shm = s := by
      unfold unrdlock at hs
      rw [out_bind, out_load, Outcome.bind_ok, out_bind] at hs
      obtain ⟨⟨⟨⟩, s₁⟩, hass, hs⟩ := Outcome.bind_eq_ok.mp hs
      have heq : s₁ = shm := (Holds.assert' (P := (· = shm)) (C := fun _ => True) dbg shm rfl).2 _ _
        hass
      rw [heq, out_bind, out_pthreadMutexUnlock_held dbg (ho.held rfl)] at hs
      exact (by simpa using hs : AchStatus.ok = st ∧ setMutex .free shm = s).2
    exact .unlock (Or.inl rfl) (isRead_afterUnlock st ret)
  | release ret =>
    rw [advance, out_pthreadMutexUnlock_held dbg (ho.held rfl)] at h
    obtain rfl := Option.some.inj h
    exact .unlock (Or.inr rfl) rfl
  | putLock buf len =>
    by_cases hm : shm.mutex = .held
    · simp [advance, hm] at h
    · obtain ⟨hfree, hd⟩ := ho.free hm
      rw [advance, if_neg hm, out_wrlock_order dbg hfree hd] at h
      obtain rfl := Option.some.inj h
      exact .putLock hm
  | putBody buf len got =>
    obtain rfl : got = true := by simpa [stray] using ho.got
    obtain ⟨⟨⟩, s, hs, rfl⟩ := moveOn_eq_some h
    exact .putBody ((putCritical_keeps (stable_fixed _) buf len dbg shm rfl).2 _ _ hs)
  | putClear got =>
    obtain rfl : got = true := by simpa [stray] using ho.got
    rw [advance] at h
    split_ifs at h
    obtain rfl := Option.some.inj h
    exact .putClear
  | putUnlock got =>
    obtain rfl : got = true := by simpa [stray] using ho.got
    rw [advance, out_pthreadMutexUnlock_held dbg (ho.held rfl)] at h
    obtain rfl := Option.some.inj h
    exact .putUnlock
  | putBroadcast =>
    rw [advance] at h
    obtain rfl := Option.some.inj h
    exact .putBroadcast

end

/-! ### The owner -/

/-- **The lock is in order**, and its owner is `o`: a handle or a canceller, or nobody. -/
structure Owned (o : Option (H ⊕ ℕ)) (s : St H) : Prop where
  handles : ∀ h, (s.pc h).holds = true ↔ o = some (.inl h)
  tasks : ∀ i, (∃ t, s.tasks[i]? = some t ∧ t.pc.holds = true) ↔ o = some (.inr i)
  free : o = none → s.shm.mutex = .free ∨ s.shm.mutex = .abandoned
  held : o ≠ none → s.shm.mutex = .held
  dirty : s.shm.dirty = true → ∃ h, writes (s.pc h) = true
  got : ∀ h, stray (s.pc h) = false

theorem holds_of_writes {p : Pc} (h : writes p = true) : p.holds = true := by
  cases p <;> simp_all [writes, Pc.holds]

@[simp] theorem holds_wake (p : Pc) : p.wake.holds = p.holds := by cases p <;> rfl

@[simp] theorem writes_wake (p : Pc) : writes p.wake = writes p := by cases p <;> rfl

@[simp] theorem stray_wake (p : Pc) : stray p.wake = stray p := by cases p <;> rfl

section
variable {o : Option (H ⊕ ℕ)} {s : St H}

theorem Owned.none_of_not_held (ho : Owned o s) (hm : s.shm.mutex ≠ .held) : o = none := by
  by_contra hne
  exact hm (ho.held hne)

theorem Owned.clean_of_none (ho : Owned (none : Option (H ⊕ ℕ)) s) : s.shm.dirty = false := by
  by_contra hd
  obtain ⟨h, hw⟩ := ho.dirty (by simpa using hd)
  simpa using (ho.handles h).mp (holds_of_writes hw)

theorem Owned.clean_of_handle {h : H} (ho : Owned (some (.inl h)) s)
    (hw : writes (s.pc h) = false) :
    s.shm.dirty = false := by
  by_contra hd
  obtain ⟨g, hg⟩ := ho.dirty (by simpa using hd)
  obtain rfl : h = g := by simpa using (ho.handles g).mp (holds_of_writes hg)
  rw [hw] at hg
  simp at hg

theorem Owned.inOrder (ho : Owned o s) (h : H) : InOrder s.shm (s.pc h) := by
  refine ⟨fun hh => ho.held ?_, fun hm => ?_, ho.got h⟩
  · rw [(ho.handles h).mp hh]
    simp
  · obtain rfl := ho.none_of_not_held hm
    exact ⟨ho.free rfl, ho.clean_of_none⟩

/-- The cancellers after one of them went on, or a new one started. -/
theorem Owned.tasks_append (ho : Owned o s) (t : Canceller H) (hp : t.pc = .lock) (i : ℕ) :
    (∃ u, (s.tasks ++ [t])[i]? = some u ∧ u.pc.holds = true) ↔ o = some (.inr i) := by
  rw [← ho.tasks i]
  rcases Nat.lt_trichotomy i s.tasks.length with hi | hi | hi
  · rw [List.getElem?_append_left hi]
  · subst hi
    simp [hp, CancelPc.holds]
  · rw [List.getElem?_eq_none (by simp; omega), List.getElem?_eq_none (by omega)]

theorem Owned.tasks_set (ho : Owned o s) {i : ℕ} {t : Canceller H} (ht : s.tasks[i]? = some t)
    {p : CancelPc} (hp : p.holds = t.pc.holds) (j : ℕ) :
    (∃ u, (s.tasks.set i { t with pc := p })[j]? = some u ∧ u.pc.holds = true) ↔
      o = some (.inr j) := by
  rw [← ho.tasks j]
  obtain ⟨hi, -⟩ := List.getElem?_eq_some_iff.mp ht
  by_cases hj : j = i
  · subst hj
    rw [List.getElem?_set_self hi, ht]
    simp [hp]
  · rw [List.getElem?_set_ne (Ne.symm hj)]

/-- A canceller that takes the mutex. -/
theorem Owned.taskTake (ho : Owned (none : Option (H ⊕ ℕ)) s) {i : ℕ} {t : Canceller H}
    (ht : s.tasks[i]? = some t) {p : CancelPc} (hp : p.holds = true) :
    Owned (some (.inr i)) { s with
      shm := setMutex .held s.shm
      tasks := s.tasks.set i { t with pc := p } } := by
  obtain ⟨hi, -⟩ := List.getElem?_eq_some_iff.mp ht
  refine ⟨fun h => by simpa using ho.handles h, fun j => ?_, by simp, fun _ => rfl, fun hd => ?_,
    ho.got⟩
  · by_cases hj : j = i
    · subst hj
      simp [List.getElem?_set_self hi, hp]
    · simp only [List.getElem?_set_ne (Ne.symm hj), ho.tasks j]
      simp [Ne.symm hj]
  · exact absurd hd (by rw [show (setMutex .held s.shm).dirty = s.shm.dirty from rfl,
      ho.clean_of_none]; simp)

/-- A canceller that gives the mutex back. -/
theorem Owned.taskGive {i : ℕ} (ho : Owned (some (.inr i)) s) {t : Canceller H}
    (ht : s.tasks[i]? = some t) {p : CancelPc} (hp : p.holds = false) :
    Owned none { s with
      shm := setMutex .free s.shm
      tasks := s.tasks.set i { t with pc := p } } := by
  obtain ⟨hi, -⟩ := List.getElem?_eq_some_iff.mp ht
  refine ⟨fun h => by simpa using ho.handles h, fun j => ?_, fun _ => Or.inl rfl, by simp,
    fun hd => ?_, ho.got⟩
  · by_cases hj : j = i
    · subst hj
      simp [List.getElem?_set_self hi, hp]
    · simp only [List.getElem?_set_ne (Ne.symm hj), ho.tasks j]
      simp [Ne.symm hj]
  · obtain ⟨h, hw⟩ := ho.dirty hd
    simpa using (ho.handles h).mp (holds_of_writes hw)

/-- A handle that takes the mutex. -/
theorem Owned.take [DecidableEq H] (ho : Owned (none : Option (H ⊕ ℕ)) s) {h : H} {s' : St H}
    {p : Pc} (hpc : s'.pc = Function.update s.pc h p) (htasks : s'.tasks = s.tasks)
    (hp : p.holds = true) (hst : stray p = false) (hm : s'.shm.mutex = .held)
    (hd : s'.shm.dirty = true → writes p = true) : Owned (some (.inl h)) s' := by
  refine ⟨fun g => ?_, fun i => ?_, by simp, fun _ => hm, fun hd' => ⟨h, ?_⟩, fun g => ?_⟩
  · rw [hpc]
    by_cases hg : g = h
    · subst hg; simp [hp]
    · have := (ho.handles g).not.mpr (by simp)
      simp [hg, this, Ne.symm hg]
  · rw [htasks, ho.tasks i]; simp
  · rw [hpc, Function.update_self]; exact hd hd'
  · rw [hpc]
    by_cases hg : g = h
    · subst hg; simpa using hst
    · rw [Function.update_of_ne hg]; exact ho.got g

/-- A handle that gives the mutex back, or leaves it behind. -/
theorem Owned.give [DecidableEq H] {h : H} (ho : Owned (some (.inl h)) s) {s' : St H} {p : Pc}
    (hpc : s'.pc = Function.update s.pc h p) (htasks : s'.tasks = s.tasks) (hp : p.holds = false)
    (hst : stray p = false) (hm : s'.shm.mutex = .free ∨ s'.shm.mutex = .abandoned)
    (hd : s'.shm.dirty = false) : Owned none s' := by
  refine ⟨fun g => ?_, fun i => ?_, fun _ => hm, by simp, by simp [hd], fun g => ?_⟩
  · rw [hpc]
    by_cases hg : g = h
    · subst hg; simp [hp]
    · have := ho.handles g
      simpa [hg, Ne.symm hg] using this
  · rw [htasks, ho.tasks i]; simp
  · rw [hpc]
    by_cases hg : g = h
    · subst hg; simpa using hst
    · rw [Function.update_of_ne hg]; exact ho.got g

/-- A step of a handle that changes nothing about who holds the mutex. -/
theorem Owned.stay [DecidableEq H] (ho : Owned o s) {h : H} {s' : St H} {p : Pc}
    (hpc : s'.pc = Function.update s.pc h p) (htasks : s'.tasks = s.tasks)
    (hp : p.holds = (s.pc h).holds) (hst : stray p = false) (hm : s'.shm.mutex = s.shm.mutex)
    (hd : s'.shm.dirty = true → s.shm.dirty = true ∧ (writes (s.pc h) = true → writes p = true)) :
    Owned o s' := by
  refine ⟨fun g => ?_, fun i => by rw [htasks]; exact ho.tasks i,
    fun h => by rw [hm]; exact ho.free h,
    fun h => by rw [hm]; exact ho.held h, fun hd' => ?_, fun g => ?_⟩
  · rw [hpc, ← ho.handles g]
    by_cases hg : g = h
    · subst hg; simp [hp]
    · rw [Function.update_of_ne hg]
  · obtain ⟨hdirty, hwr⟩ := hd hd'
    obtain ⟨g, hg⟩ := ho.dirty hdirty
    rw [hpc]
    by_cases hgh : g = h
    · subst hgh
      exact ⟨g, by simpa using hwr hg⟩
    · exact ⟨g, by rwa [Function.update_of_ne hgh]⟩
  · rw [hpc]
    by_cases hg : g = h
    · subst hg; simpa using hst
    · rw [Function.update_of_ne hg]; exact ho.got g

/-- A step that changes nothing about who holds the mutex. -/
theorem Owned.keep (ho : Owned o s) {s' : St H} (hholds : ∀ g, (s'.pc g).holds = (s.pc g).holds)
    (hst : ∀ g, stray (s'.pc g) = false) (htasks : ∀ i,
      (∃ t, s'.tasks[i]? = some t ∧ t.pc.holds = true) ↔ o = some (.inr i))
    (hm : s'.shm.mutex = s.shm.mutex)
    (hd : s'.shm.dirty = true → ∃ g, writes (s'.pc g) = true) : Owned o s' :=
  ⟨fun g => by rw [hholds, ho.handles g], htasks, fun h => by rw [hm]; exact ho.free h,
    fun h => by rw [hm]; exact ho.held h, hd, hst⟩

end

/-- Nobody holds the mutex of a clean channel whose handles are idle. -/
theorem owned_of_quiet {s : St H} (hc : Clean s.shm) (hq : Quiet s) : Owned none s := by
  refine ⟨fun g => by simp [hq.pc g, Pc.holds], fun i => by simp [hq.tasks],
    fun _ => Or.inl hc.mutex,
    by simp, fun hd => ?_, fun g => by simp [hq.pc g, stray]⟩
  rw [hc.dirty] at hd
  simp at hd

/-! ### The steps of the system -/

/-- Where a call that begins can get to. -/
def entered : Pc → Bool
  | .lock _ | .putLock _ _ | .done _ => true
  | _ => false

section
variable [DecidableEq H]

/-- **The steps of the system** on a channel whose lock is in order. -/
inductive Trans (s : St H) : Label H → St H → Prop
  | begin {h : H} {op : Op} {p : Pc} (hidle : s.pc h = .idle) (hp : entered p = true) :
      Trans s (.begin h op) { s with pc := Function.update s.pc h p }
  | step {h : H} {m : Move} (ha : Adv s.shm (s.chan h) (s.pc h) m) : Trans s (.step h) (s.apply h m)
  | wake {h : H} {r : ReadOp} (hb : s.pc h = .blocked r) :
      Trans s (.wake h) { s with pc := Function.update s.pc h (.woken r) }
  | timeout {h : H} {r : ReadOp} (hw : s.pc h = .woken r) (hm : s.shm.mutex = .free) :
      Trans s (.timeout h)
        (s.apply h ⟨setMutex .held s.shm, s.chan h, .release (r.fail .timeout), false⟩)
  | ret {h : H} {ret : Ret} {chan : AchChannel} {shm : AchHeader} (hd : s.pc h = .done ret) :
      Trans s (.ret h ret chan shm) { s with pc := Function.update s.pc h .idle }
  | die {h : H} (hr : (s.pc h).inRead = true) :
      Trans s (.die h) { s with
        shm := if (s.pc h).holds then setMutex .abandoned s.shm else s.shm
        pc := Function.update s.pc h .dead }
  | signal {h : H} :
      Trans s (.signal h) { s with sig := Function.update s.sig h (.set :: s.sig h) }
  | handlerSet {h : H} {rest : List SigPc} (hs : s.sig h = .set :: rest) :
      Trans s (.handler h) { s with
        chan := Function.update s.chan h { s.chan h with cancel := true }
        sig := Function.update s.sig h (.fork :: rest) }
  | handlerFork {h : H} {rest : List SigPc} (hs : s.sig h = .fork :: rest) :
      Trans s (.handler h) { s with
        sig := Function.update s.sig h rest
        tasks := s.tasks ++ [⟨h, true, .lock⟩] }
  | cancel {h : H} : Trans s (.cancel h) { s with tasks := s.tasks ++ [⟨h, false, .lock⟩] }
  | taskLock {i : ℕ} {t : Canceller H} (ht : s.tasks[i]? = some t) (hp : t.pc = .lock)
      (hm : s.shm.mutex ≠ .held) :
      Trans s (.task i) { s with
        shm := setMutex .held s.shm
        tasks := s.tasks.set i { t with pc := if t.child then .unlock else .set } }
  | taskSet {i : ℕ} {t : Canceller H} (ht : s.tasks[i]? = some t) (hp : t.pc = .set) :
      Trans s (.task i) { s with
        chan := Function.update s.chan t.handle { s.chan t.handle with cancel := true }
        tasks := s.tasks.set i { t with pc := .unlock } }
  | taskUnlock {i : ℕ} {t : Canceller H} (ht : s.tasks[i]? = some t) (hp : t.pc = .unlock) :
      Trans s (.task i) { s with
        shm := setMutex .free s.shm
        tasks := s.tasks.set i { t with pc := .broadcast } }
  | taskBroadcast {i : ℕ} {t : Canceller H} (ht : s.tasks[i]? = some t) (hp : t.pc = .broadcast) :
      Trans s (.task i) { s with
        pc := fun g => (s.pc g).wake
        tasks := s.tasks.set i { t with pc := .exited } }

theorem entered_enter {shm : AchHeader} {chan : AchChannel} {op : Op} {p : Pc}
    (h : enter shm chan op = some p) : entered p = true := by
  unfold enter at h
  split at h <;> (try split_ifs at h) <;> first | (simp at h; done) | (cases h; rfl)

variable {o : Option (H ⊕ ℕ)} {s s' : St H}

theorem taskStep_cases {dbg : Bool} {i : ℕ} {t : Canceller H} (ho : Owned o s)
    (ht : s.tasks[i]? = some t) (h : s.taskStep dbg i t = some s') : Trans s (.task i) s' := by
  have hheld : t.pc.holds = true → s.shm.mutex = .held := fun hh => by
    refine ho.held ?_
    rw [(ho.tasks i).mp ⟨t, ht, hh⟩]
    simp
  unfold St.taskStep at h
  cases hp : t.pc with
  | lock =>
    simp only [hp] at h
    by_cases hm : s.shm.mutex = .held
    · simp [hm] at h
    · obtain rfl := ho.none_of_not_held hm
      rw [if_neg hm, out_chanLock_order dbg (ho.free rfl) ho.clean_of_none] at h
      obtain rfl := Option.some.inj h
      exact .taskLock ht hp hm
  | set =>
    simp only [hp] at h
    obtain rfl := Option.some.inj h
    exact .taskSet ht hp
  | unlock =>
    simp only [hp] at h
    rw [out_pthreadMutexUnlock_held dbg (hheld (by rw [hp]; rfl))] at h
    obtain rfl := Option.some.inj h
    exact .taskUnlock ht hp
  | broadcast =>
    simp only [hp] at h
    obtain rfl := Option.some.inj h
    exact .taskBroadcast ht hp
  | exited => simp [hp] at h

/-- **Every step is one of those.** -/
theorem next_cases {dbg : Bool} {l : Label H} (ho : Owned o s) (h : s.next dbg l = some s') :
    Trans s l s' := by
  cases l with
  | begin g op =>
    simp only [St.next] at h
    split at h
    · rename_i hidle _
      obtain ⟨p, hp, rfl⟩ := Option.map_eq_some_iff.mp h
      exact .begin hidle (entered_enter hp)
    · simp at h
  | step g =>
    simp only [St.next] at h
    split at h
    · obtain ⟨m, hm, rfl⟩ := Option.map_eq_some_iff.mp h
      exact .step (advance_cases (ho.inOrder g) hm)
    · simp at h
  | wake g =>
    simp only [St.next] at h
    split at h
    · rename_i r hb
      obtain rfl := Option.some.inj h
      exact .wake hb
    · simp at h
  | timeout g =>
    simp only [St.next] at h
    split at h
    · rename_i r hw _
      split_ifs at h with hc
      obtain rfl := Option.some.inj h
      exact .timeout hw hc.2
    · simp at h
  | ret g ret chan shm =>
    simp only [St.next] at h
    split at h
    · rename_i ret' hd _
      split_ifs at h with hc
      obtain rfl := Option.some.inj h
      exact .ret (by rw [hd, hc.1])
    · simp at h
  | die g =>
    rw [St.next] at h
    by_cases hr : (s.pc g).inRead = true
    · rw [if_pos hr] at h
      obtain rfl := Option.some.inj h
      exact .die hr
    · simp [hr] at h
  | signal g =>
    obtain rfl := Option.some.inj h
    exact .signal
  | handler g =>
    simp only [St.next, St.handlerStep] at h
    split at h
    · rename_i rest hs
      obtain rfl := Option.some.inj h
      exact .handlerSet hs
    · rename_i rest hs
      obtain rfl := Option.some.inj h
      exact .handlerFork hs
    · simp at h
  | cancel g =>
    obtain rfl := Option.some.inj h
    exact .cancel
  | task i =>
    simp only [St.next] at h
    obtain ⟨t, ht, h⟩ := Option.bind_eq_some_iff.mp h
    exact taskStep_cases ho ht h

/-! ### The invariant is kept -/

/-- A step of a handle keeps the lock in order. -/
theorem Owned.apply (ho : Owned o s) {h : H} {m : Move} (ha : Adv s.shm (s.chan h) (s.pc h) m) :
    ∃ o', Owned o' (s.apply h m) := by
  have hown : (s.pc h).holds = true → o = some (.inl h) := (ho.handles h).mp
  have hst := ho.got h
  generalize hp : s.pc h = p at ha hown
  cases ha with
  | acquire hr hm =>
    obtain rfl := ho.none_of_not_held hm
    refine ⟨_, ho.take (h := h) rfl rfl rfl rfl rfl fun hd => ?_⟩
    exact absurd (show s.shm.dirty = true from hd) (by simp [ho.clean_of_none])
  | canceled hc =>
    exact ⟨o, ho.stay rfl rfl (by rw [hp]; rfl) rfl rfl fun hd => ⟨hd, by simp [hp, writes]⟩⟩
  | mustWait hc hw hs =>
    exact ⟨o, ho.stay rfl rfl (by rw [hp]; rfl) rfl rfl fun hd => ⟨hd, by simp [hp, writes]⟩⟩
  | goOn hc =>
    exact ⟨o, ho.stay rfl rfl (by rw [hp]; rfl) rfl rfl fun hd => ⟨hd, by simp [hp, writes]⟩⟩
  | body hs hr =>
    exact ⟨o, ho.stay rfl rfl (by rw [hp]; rfl) rfl rfl fun hd => ⟨hd, by simp [hp, writes]⟩⟩
  | wait =>
    obtain rfl := hown rfl
    exact ⟨none, ho.give rfl rfl rfl rfl (Or.inl rfl) (ho.clean_of_handle (by rw [hp]; rfl))⟩
  | unlock hr _ =>
    have hh : p.holds = true := by rcases hr with rfl | rfl <;> rfl
    have hw : writes p = false := by rcases hr with rfl | rfl <;> rfl
    obtain rfl := hown hh
    exact ⟨none, ho.give rfl rfl rfl rfl (Or.inl rfl) (ho.clean_of_handle (by rw [hp]; exact hw))⟩
  | putLock hm =>
    obtain rfl := ho.none_of_not_held hm
    exact ⟨_, ho.take (h := h) rfl rfl rfl rfl rfl fun _ => rfl⟩
  | putBody hf =>
    refine ⟨o, ho.stay rfl rfl (by rw [hp]; rfl) rfl (mutex_of_fixedPart hf) fun hd => ?_⟩
    exact ⟨(dirty_of_fixedPart hf).symm.trans hd, fun _ => rfl⟩
  | putClear =>
    exact ⟨o, ho.stay rfl rfl (by rw [hp]; rfl) rfl rfl fun hd => by simp [St.apply] at hd⟩
  | putUnlock =>
    obtain rfl := hown rfl
    exact ⟨none, ho.give rfl rfl rfl rfl (Or.inl rfl) (ho.clean_of_handle (by rw [hp]; rfl))⟩
  | putBroadcast =>
    refine ⟨o, ho.keep (fun g => ?_) (fun g => ?_) ho.tasks rfl fun hd => ?_⟩
    · by_cases hg : g = h
      · subst hg; simp [St.apply, hp, Pc.holds]
      · simp [St.apply, hg]
    · by_cases hg : g = h
      · subst hg; simp [St.apply, stray]
      · simpa [St.apply, hg] using ho.got g
    · obtain ⟨g, hg⟩ := ho.dirty hd
      refine ⟨g, ?_⟩
      have hne : g ≠ h := fun he => by rw [he, hp] at hg; simp [writes] at hg
      simpa [St.apply, hne] using hg

theorem not_holds_of_entered {p : Pc} (h : entered p = true) :
    p.holds = false ∧ stray p = false := by
  cases p <;> simp_all [entered, Pc.holds, stray]

theorem not_writes_of_inRead {p : Pc} (h : p.inRead = true) : writes p = false := by
  cases p <;> simp_all [Pc.inRead, writes]

/-- **The lock stays in order.** -/
theorem Owned.trans (ho : Owned o s) {l : Label H} (ht : Trans s l s') : ∃ o', Owned o' s' := by
  cases ht with
  | begin hidle hp =>
    refine ⟨o, ho.stay rfl rfl ?_ ?_ rfl fun hd => ⟨hd, by simp [hidle, writes]⟩⟩
    · rw [hidle, (not_holds_of_entered hp).1]; rfl
    · exact (not_holds_of_entered hp).2
  | step ha => exact ho.apply ha
  | wake hb =>
    exact ⟨o, ho.stay rfl rfl (by rw [hb]; rfl) rfl rfl fun hd => ⟨hd, by simp [hb, writes]⟩⟩
  | timeout hw hm =>
    obtain rfl := ho.none_of_not_held (by rw [hm]; simp)
    refine ⟨_, ho.take rfl rfl rfl rfl rfl fun hd => ?_⟩
    exact absurd (show s.shm.dirty = true from hd) (by simp [ho.clean_of_none])
  | ret hd =>
    exact ⟨o, ho.stay rfl rfl (by rw [hd]; rfl) rfl rfl fun h => ⟨h, by simp [hd, writes]⟩⟩
  | @die h hr =>
    have hw := not_writes_of_inRead hr
    cases hh : (s.pc h).holds with
    | true =>
      obtain rfl := (ho.handles h).mp hh
      exact ⟨none, ho.give rfl rfl rfl rfl (Or.inr rfl) (ho.clean_of_handle hw)⟩
    | false => exact ⟨o, ho.stay rfl rfl (by rw [hh]; rfl) rfl rfl fun hd => ⟨hd, by simp [hw]⟩⟩
  | signal => exact ⟨o, ho.keep (fun _ => rfl) ho.got ho.tasks rfl ho.dirty⟩
  | handlerSet hs => exact ⟨o, ho.keep (fun _ => rfl) ho.got ho.tasks rfl ho.dirty⟩
  | handlerFork hs => exact ⟨o, ho.keep (fun _ => rfl) ho.got (ho.tasks_append _ rfl) rfl ho.dirty⟩
  | cancel => exact ⟨o, ho.keep (fun _ => rfl) ho.got (ho.tasks_append _ rfl) rfl ho.dirty⟩
  | taskLock ht hp hm =>
    obtain rfl := ho.none_of_not_held hm
    exact ⟨_, ho.taskTake ht (by split_ifs <;> rfl)⟩
  | taskSet ht hp =>
    exact ⟨o, ho.keep (fun _ => rfl) ho.got (ho.tasks_set ht (by rw [hp]; rfl)) rfl ho.dirty⟩
  | taskUnlock ht hp =>
    obtain rfl := (ho.tasks _).mp ⟨_, ht, by rw [hp]; rfl⟩
    exact ⟨none, ho.taskGive ht rfl⟩
  | taskBroadcast ht hp =>
    refine ⟨o, ho.keep (fun g => holds_wake _) (fun g => ?_) (ho.tasks_set ht (by rw [hp]; rfl)) rfl
      fun hd => ?_⟩
    · simpa using ho.got g
    · obtain ⟨g, hg⟩ := ho.dirty hd
      exact ⟨g, by simpa using hg⟩

end

end Ach.Sync.Lockset
