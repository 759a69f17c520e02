import Ach.Sync.Lockset

/-! # No lost wake-up

A get that is in the condition wait although a frame is there for it, or although it was cancelled,
is going to be woken: somebody has still to broadcast (`no_lost_wakeup`).

The invariant behind it (`Awaited`) has a part about the instant before the wait. There the handle
holds the mutex, so no frame can come in between its last test and the wait. But a signal handler
may set its cancel flag in between. The handler's child then has still to lock the mutex, which it
cannot do before the handle waits: its broadcast comes after. -/

namespace Ach.Sync.Wakeup

open Ach.Lib.Run
open Ach.Channel.Types Ach.Channel.Lock Ach.Channel.Put Ach.Channel.Get
open Ach.Channel.PutSpec Ach.Channel.Frame Ach.Channel.Invariant Ach.Channel.Create
open Ach.Channel.History Ach.Sync.Machine Ach.Sync.Lockset

variable {H : Type}

/-- The canceller has set the flag, or its parent has, and it has not broadcast yet. -/
def announced (t : Canceller H) : Bool :=
  match t.pc with
  | .lock => t.child
  | .unlock | .broadcast => true
  | _ => false

/-- A child that has not locked the mutex yet. -/
def unlocked (t : Canceller H) : Bool :=
  match t.pc with
  | .lock => t.child
  | _ => false

/-- **A broadcast is to come:** from a put that has changed the channel, from a signal handler that
is about to fork, or from a canceller or a forked child. -/
def BroadcastPending (s : St H) : Prop :=
  (∃ h, publishing (s.pc h) = true) ∨ (∃ h, SigPc.fork ∈ s.sig h) ∨
    ∃ (i : ℕ) (t : Canceller H), s.tasks[i]? = some t ∧ announced t = true

/-- A child of a signal handler has still to lock the mutex. -/
def LockPending (s : St H) : Prop :=
  (∃ h, SigPc.fork ∈ s.sig h) ∨
    ∃ (i : ℕ) (t : Canceller H), s.tasks[i]? = some t ∧ unlocked t = true

theorem LockPending.broadcastPending {s : St H} (h : LockPending s) : BroadcastPending s := by
  rcases h with h | ⟨i, t, ht, hu⟩
  · exact Or.inr (Or.inl h)
  · refine Or.inr (Or.inr ⟨i, t, ht, ?_⟩)
    unfold unlocked at hu
    unfold announced
    split at hu
    · rename_i hp
      simpa [hp] using hu
    · simp at hu

theorem wake_ne_blocked (p : Pc) (r : ReadOp) : p.wake ≠ .blocked r := by
  cases p <;> simp [Pc.wake]

theorem eq_toWait_of_wake {p : Pc} {r : ReadOp} (h : p.wake = .toWait r) : p = .toWait r := by
  cases p <;> simp_all [Pc.wake]

/-- The handle has nothing to wait for any more. -/
def Due (s : St H) (h : H) : Prop :=
  (s.chan h).seqNum ≠ s.shm.lastSeq ∨ (s.chan h).cancel = true

/-- **The invariant.** -/
structure Awaited (s : St H) : Prop where
  blocked : ∀ h r, s.pc h = .blocked r → Due s h → BroadcastPending s
  toWait : ∀ h r, s.pc h = .toWait r →
    (s.chan h).seqNum = s.shm.lastSeq ∧ ((s.chan h).cancel = true → LockPending s)

section
variable {s s' : St H}

theorem BroadcastPending.mono (hp : BroadcastPending s)
    (hpc : ∀ h, publishing (s.pc h) = true → publishing (s'.pc h) = true)
    (hsig : ∀ h, SigPc.fork ∈ s.sig h → SigPc.fork ∈ s'.sig h)
    (htasks : ∀ (i : ℕ) (t : Canceller H), s.tasks[i]? = some t → announced t = true →
      ∃ t', s'.tasks[i]? = some t' ∧ announced t' = true) : BroadcastPending s' := by
  rcases hp with ⟨h, hh⟩ | ⟨h, hh⟩ | ⟨i, t, ht, ha⟩
  · exact Or.inl ⟨h, hpc h hh⟩
  · exact Or.inr (Or.inl ⟨h, hsig h hh⟩)
  · obtain ⟨t', ht', ha'⟩ := htasks i t ht ha
    exact Or.inr (Or.inr ⟨i, t', ht', ha'⟩)

theorem LockPending.mono (hp : LockPending s)
    (hsig : ∀ h, SigPc.fork ∈ s.sig h → SigPc.fork ∈ s'.sig h)
    (htasks : ∀ (i : ℕ) (t : Canceller H), s.tasks[i]? = some t → unlocked t = true →
      ∃ t', s'.tasks[i]? = some t' ∧ unlocked t' = true) : LockPending s' := by
  rcases hp with ⟨h, hh⟩ | ⟨i, t, ht, ha⟩
  · exact Or.inl ⟨h, hsig h hh⟩
  · obtain ⟨t', ht', ha'⟩ := htasks i t ht ha
    exact Or.inr ⟨i, t', ht', ha'⟩

/-- A step of one handle that changes neither the newest number nor any other handle. -/
theorem Awaited.move [DecidableEq H] (ha : Awaited s) {h : H} {p : Pc}
    (hpc : s'.pc = Function.update s.pc h p) (hsig : s'.sig = s.sig) (htasks : s'.tasks = s.tasks)
    (hchan : ∀ g, g ≠ h → s'.chan g = s.chan g) (hlast : s'.shm.lastSeq = s.shm.lastSeq)
    (hb : ∀ r, p = .blocked r → Due s' h → BroadcastPending s')
    (hw : ∀ r, p = .toWait r →
      (s'.chan h).seqNum = s'.shm.lastSeq ∧ ((s'.chan h).cancel = true → LockPending s'))
    (hpub : publishing (s.pc h) = true → publishing p = true) : Awaited s' := by
  refine ⟨fun g r hg hdue => ?_, fun g r hg => ?_⟩ <;> rw [hpc] at hg <;> by_cases hgh : g = h
  · subst hgh
    rw [Function.update_self] at hg
    exact hb r hg hdue
  · rw [Function.update_of_ne hgh] at hg
    rw [Due, hchan g hgh, hlast] at hdue
    refine BroadcastPending.mono (ha.blocked g r hg hdue) (fun k hk => ?_)
      (fun k hk => by rw [hsig]; exact hk) (fun i t ht ha' => ⟨t, by rw [htasks]; exact ht, ha'⟩)
    rw [hpc]
    by_cases hk' : k = h
    · subst hk'; simpa using hpub hk
    · rwa [Function.update_of_ne hk']
  · subst hgh
    rw [Function.update_self] at hg
    exact hw r hg
  · rw [Function.update_of_ne hgh] at hg
    rw [hchan g hgh, hlast]
    obtain ⟨hseq, hcancel⟩ := ha.toWait g r hg
    exact ⟨hseq, fun hc => LockPending.mono (hcancel hc) (fun k hk => by rw [hsig]; exact hk)
      (fun i t ht ha' => ⟨t, by rw [htasks]; exact ht, ha'⟩)⟩

/-- Only the owner of the mutex can be about to wait. -/
theorem owner_of_toWait {o : Option (H ⊕ ℕ)} (ho : Owned o s) {h : H} {r : ReadOp}
    (hp : s.pc h = .toWait r) : o = some (.inl h) :=
  (ho.handles h).mp (by rw [hp]; rfl)

end

variable [DecidableEq H] {s s' : St H} {o : Option (H ⊕ ℕ)}

/-- A step of a handle keeps the invariant. -/
theorem Awaited.apply (ha : Awaited s) (ho : Owned o s) {h : H} {m : Move}
    (hadv : Adv s.shm (s.chan h) (s.pc h) m) : Awaited (s.apply h m) := by
  have hother : ∀ (c : AchChannel) (g : H), g ≠ h → Function.update s.chan h c g = s.chan g :=
    fun c g hg => Function.update_of_ne hg c s.chan
  generalize hp : s.pc h = p at hadv
  cases hadv with
  | acquire hr hm =>
    refine ha.move rfl rfl rfl (hother _) rfl (by simp) (by simp) fun hpub => ?_
    rcases hr with rfl | rfl <;> simp [hp, publishing] at hpub
  | canceled hc =>
    exact ha.move rfl rfl rfl (hother _) rfl (by simp) (by simp) (by simp [hp, publishing])
  | mustWait hc hw hs =>
    refine ha.move rfl rfl rfl (hother _) rfl (by simp) (fun r hr => ?_) (by simp [hp, publishing])
    simp [St.apply, hs, hc]
  | goOn hc =>
    exact ha.move rfl rfl rfl (hother _) rfl (by simp) (by simp) (by simp [hp, publishing])
  | wait =>
    -- between the last test and the wait only a signal handler can have done anything
    obtain ⟨hseq, hcancel⟩ := ha.toWait h _ hp
    refine ha.move rfl rfl rfl (hother _) rfl (fun r hr hdue => ?_) (by simp)
      (by simp [hp, publishing])
    rcases hdue with hne | hc
    · exact absurd hseq (by simpa [St.apply, setMutex] using hne)
    · have hpend := hcancel (by simpa [St.apply] using hc)
      exact LockPending.broadcastPending (s := s.apply h _) hpend
  | body hs hr =>
    exact ha.move rfl rfl rfl (hother _) rfl (by simp) (by simp) (by simp [hp, publishing])
  | unlock hr _ =>
    refine ha.move rfl rfl rfl (hother _) rfl (by simp) (by simp) fun hpub => ?_
    rcases hr with rfl | rfl <;> simp [hp, publishing] at hpub
  | putLock hm =>
    exact ha.move rfl rfl rfl (hother _) rfl (by simp) (by simp) (by simp [hp, publishing])
  | putBody hf =>
    -- the put holds the mutex, so nobody is about to wait; for those who wait it has to broadcast
    have hown : o = some (.inl h) := (ho.handles h).mp (by rw [hp]; rfl)
    refine ⟨fun g r hg _ => Or.inl ⟨h, by simp [St.apply, publishing]⟩, ?_⟩
    intro g r hg
    by_cases hgh : g = h
    · subst hgh
      simp [St.apply] at hg
    · have hg' : s.pc g = .toWait r := by simpa [St.apply, hgh] using hg
      have := owner_of_toWait ho hg'
      rw [hown] at this
      exact absurd (by simpa using this : h = g) (Ne.symm hgh)
  | putClear => exact ha.move rfl rfl rfl (hother _) rfl (by simp) (by simp) fun _ => rfl
  | putUnlock => exact ha.move rfl rfl rfl (hother _) rfl (by simp) (by simp) fun _ => rfl
  | putBroadcast =>
    refine ⟨fun g r hg _ => ?_, fun g r hg => ?_⟩ <;> by_cases hgh : g = h
    · subst hgh
      simp [St.apply] at hg
    · exact absurd (by simpa [St.apply, hgh] using hg) (wake_ne_blocked (s.pc g) r)
    · subst hgh
      simp [St.apply] at hg
    · have hg' := eq_toWait_of_wake (by simpa [St.apply, hgh] using hg)
      obtain ⟨hseq, hcancel⟩ := ha.toWait g r hg'
      simp only [St.apply, Function.update_of_ne hgh]
      exact ⟨hseq, hcancel⟩

omit [DecidableEq H] in
/-- A step of a canceller or of a signal handler after which every due handle is awaited. -/
theorem Awaited.of_pending (ha : Awaited s) (hb : BroadcastPending s')
    (hpc : s'.pc = s.pc) (hlast : s'.shm.lastSeq = s.shm.lastSeq)
    (hseq : ∀ g, (s'.chan g).seqNum = (s.chan g).seqNum)
    (hw : ∀ g r, s.pc g = .toWait r → (s'.chan g).cancel = true → LockPending s') : Awaited s' := by
  refine ⟨fun g r hg _ => hb, ?_⟩
  intro g r hg
  rw [hpc] at hg
  rw [hseq, hlast]
  exact ⟨(ha.toWait g r hg).1, hw g r hg⟩

omit [DecidableEq H] in
/-- A step that only adds to those who have still to broadcast. -/
theorem Awaited.grow (ha : Awaited s) (hpc : s'.pc = s.pc) (hshm : s'.shm = s.shm)
    (hchan : s'.chan = s.chan) (hsig : ∀ g, SigPc.fork ∈ s.sig g → SigPc.fork ∈ s'.sig g)
    (hann : ∀ (i : ℕ) (t : Canceller H), s.tasks[i]? = some t → announced t = true →
      ∃ t', s'.tasks[i]? = some t' ∧ announced t' = true)
    (hunl : ∀ (i : ℕ) (t : Canceller H), s.tasks[i]? = some t → unlocked t = true →
      ∃ t', s'.tasks[i]? = some t' ∧ unlocked t' = true) : Awaited s' := by
  constructor
  · intro g r hg hdue
    rw [hpc] at hg
    rw [Due, hchan, hshm] at hdue
    exact BroadcastPending.mono (ha.blocked g r hg hdue) (fun k hk => by rw [hpc]; exact hk) hsig
      hann
  · intro g r hg
    rw [hpc] at hg
    rw [hchan, hshm]
    obtain ⟨hseq, hcancel⟩ := ha.toWait g r hg
    exact ⟨hseq, fun hc => LockPending.mono (hcancel hc) hsig hunl⟩

omit [DecidableEq H] in
/-- A canceller goes on, and stays announced if it was. -/
theorem announced_set {i : ℕ} {t : Canceller H} (ht : s.tasks[i]? = some t) {p : CancelPc}
    (hp : announced t = true → announced { t with pc := p } = true) (j : ℕ) (u : Canceller H)
    (hu : s.tasks[j]? = some u) (hann : announced u = true) :
    ∃ u', (s.tasks.set i { t with pc := p })[j]? = some u' ∧ announced u' = true := by
  obtain ⟨hi, -⟩ := List.getElem?_eq_some_iff.mp ht
  by_cases hj : i = j
  · subst hj
    obtain rfl : t = u := by rw [ht] at hu; exact Option.some.inj hu
    exact ⟨_, List.getElem?_set_self hi, hp hann⟩
  · exact ⟨u, by rw [List.getElem?_set_ne hj]; exact hu, hann⟩

theorem not_publishing_of_inRead {p : Pc} (h : p.inRead = true) : publishing p = false := by
  cases p <;> simp_all [Pc.inRead, publishing]

/-- **The step lemma.** -/
theorem Awaited.trans (ha : Awaited s) (ho : Owned o s) {l : Label H} (ht : Trans s l s') :
    Awaited s' := by
  cases ht with
  | begin hidle hp =>
    exact ha.move rfl rfl rfl (fun _ _ => rfl) rfl (fun r hr => by simp [hr, entered] at hp)
      (fun r hr => by simp [hr, entered] at hp) (by simp [hidle, publishing])
  | step hadv => exact ha.apply ho hadv
  | wake hb =>
    exact ha.move rfl rfl rfl (fun _ _ => rfl) rfl (by simp) (by simp) (by simp [hb, publishing])
  | timeout hw hm =>
    exact ha.move rfl rfl rfl (fun g hg => Function.update_of_ne hg _ _) rfl (by simp) (by simp)
      (by simp [hw, publishing])
  | ret hd =>
    exact ha.move rfl rfl rfl (fun _ _ => rfl) rfl (by simp) (by simp) (by simp [hd, publishing])
  | die hr =>
    refine ha.move rfl rfl rfl (fun _ _ => rfl) (by simp only; split_ifs <;> rfl) (by simp)
      (by simp)
      fun hp => ?_
    rw [not_publishing_of_inRead hr] at hp
    simp at hp
  | @signal h =>
    have hsig : ∀ g, SigPc.fork ∈ s.sig g →
        SigPc.fork ∈ Function.update s.sig h (.set :: s.sig h) g := fun g hg => by
      by_cases hgh : g = h
      · subst hgh; simpa using hg
      · rwa [Function.update_of_ne hgh]
    exact ha.grow rfl rfl rfl hsig (fun i t ht hu => ⟨t, ht, hu⟩) (fun i t ht hu => ⟨t, ht, hu⟩)
  | @handlerSet h rest hs =>
    have hlock : LockPending { s with
        chan := Function.update s.chan h { s.chan h with cancel := true }
        sig := Function.update s.sig h (.fork :: rest) } := Or.inl ⟨h, by simp⟩
    refine ha.of_pending hlock.broadcastPending rfl rfl (fun g => ?_) fun _ _ _ _ => hlock
    by_cases hg : g = h
    · subst hg; simp
    · simp [hg]
  | @handlerFork h rest hs =>
    have hlock : LockPending { s with
        sig := Function.update s.sig h rest
        tasks := s.tasks ++ [⟨h, true, .lock⟩] } :=
      Or.inr ⟨s.tasks.length, ⟨h, true, .lock⟩, by simp, rfl⟩
    exact ha.of_pending hlock.broadcastPending rfl rfl (fun _ => rfl) fun _ _ _ _ => hlock
  | @cancel h =>
    have hmem : ∀ (i : ℕ) (t : Canceller H), s.tasks[i]? = some t →
        (s.tasks ++ [⟨h, false, .lock⟩])[i]? = some t := fun i t ht => by
      rw [List.getElem?_append_left (List.getElem?_eq_some_iff.mp ht).1, ht]
    exact ha.grow rfl rfl rfl (fun _ hg => hg) (fun i t ht hu => ⟨t, hmem i t ht, hu⟩)
      (fun i t ht hu => ⟨t, hmem i t ht, hu⟩)
  | @taskLock i t ht hp hm =>
    obtain rfl := ho.none_of_not_held hm
    refine ⟨fun g r hg hdue => ?_, fun g r hg => absurd (owner_of_toWait ho hg) (by simp)⟩
    refine BroadcastPending.mono (ha.blocked g r hg hdue) (fun _ hk => hk) (fun _ hk => hk) ?_
    exact announced_set ht fun hann => by
      have hc : t.child = true := by simpa [announced, hp] using hann
      simp [announced, hc]
  | @taskSet i t ht hp =>
    have hown : o = some (.inr i) := (ho.tasks i).mp ⟨t, ht, by rw [hp]; rfl⟩
    obtain ⟨hi, -⟩ := List.getElem?_eq_some_iff.mp ht
    have hpend : BroadcastPending { s with
        chan := Function.update s.chan t.handle { s.chan t.handle with cancel := true }
        tasks := s.tasks.set i { t with pc := .unlock } } :=
      Or.inr (Or.inr ⟨i, { t with pc := .unlock }, List.getElem?_set_self hi, rfl⟩)
    refine ha.of_pending hpend rfl rfl (fun g => ?_) fun g r hg _ => ?_
    · by_cases hg : g = t.handle
      · subst hg; simp
      · simp [hg]
    · have := owner_of_toWait ho hg
      rw [hown] at this
      simp at this
  | @taskUnlock i t ht hp =>
    have hown : o = some (.inr i) := (ho.tasks i).mp ⟨t, ht, by rw [hp]; rfl⟩
    constructor
    · intro g r hg hdue
      refine BroadcastPending.mono (ha.blocked g r hg hdue) (fun _ hk => hk) (fun _ hk => hk) ?_
      exact announced_set ht fun _ => rfl
    · intro g r hg
      have := owner_of_toWait ho hg
      rw [hown] at this
      simp at this
  | @taskBroadcast i t ht hp =>
    refine ⟨fun g r hg _ => absurd hg (wake_ne_blocked (s.pc g) r), ?_⟩
    intro g r hg
    obtain ⟨hseq, hcancel⟩ := ha.toWait g r (eq_toWait_of_wake hg)
    refine ⟨hseq, fun hc => LockPending.mono (hcancel hc) (fun _ hk => hk) fun j u hu hun => ?_⟩
    have hne : i ≠ j := fun he => by
      subst he
      obtain rfl : t = u := by rw [ht] at hu; exact Option.some.inj hu
      simp [unlocked, hp] at hun
    exact ⟨u, by rw [List.getElem?_set_ne hne]; exact hu, hun⟩

/-! ### Runs -/

/-- Two handles on a channel of 2 frames of 3 bytes. -/
def sampleSt : St Bool where
  shm := created 2 3
  chan := fun _ => openedChan (created 2 3)
  pc := fun _ => .idle
  sig := fun _ => []
  tasks := []

/-- A get that waits for a frame. -/
def sampleGet : ReadOp := .get 8 false ⟨true, false, false⟩

end Ach.Sync.Wakeup
