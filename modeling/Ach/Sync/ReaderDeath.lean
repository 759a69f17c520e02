import Ach.Sync.Wakeup

/-! # The death of a reader

A process that dies inside `ach_get` or `ach_flush` leaves a mutex that is abandoned, or free, and
nothing else: reads change neither the dirty flag nor anything else in the block. So a run in which
readers die goes, for everybody else, exactly like the run from which their last, interrupted calls
are deleted (`reader_death_harmless`). The two runs are related by a simulation: the same block but
for the mutex, the same state of every handle that goes on; and where a dying reader holds the
mutex, or has left it behind, the mutex of the other run is free. -/

namespace Ach.Sync.ReaderDeath

open Ach.Lib.Run
open Ach.Channel.Types Ach.Channel.Lock Ach.Channel.Put Ach.Channel.Get
open Ach.Channel.PutSpec Ach.Channel.Frame Ach.Channel.Invariant Ach.Channel.Create
open Ach.Channel.History Ach.Sync.Machine Ach.Sync.Lockset Ach.Sync.Wakeup

variable {H : Type} [DecidableEq H]

/-! ### Deleting interrupted calls -/

/-- In the rest of the run the handle dies before it returns or calls again. -/
def doomed (h : H) : List (Label H) → Bool
  | [] => false
  | .die g :: ls => if g = h then true else doomed h ls
  | .ret g _ _ _ :: ls => if g = h then false else doomed h ls
  | .begin g _ :: ls => if g = h then false else doomed h ls
  | _ :: ls => doomed h ls

/-- **The run without the interrupted calls:** without the steps of a call in which the process
dies, and without the death. -/
def erase : List (Label H) → List (Label H)
  | [] => []
  | .begin h op :: ls => if doomed h ls then erase ls else .begin h op :: erase ls
  | .step h :: ls => if doomed h ls then erase ls else .step h :: erase ls
  | .wake h :: ls => if doomed h ls then erase ls else .wake h :: erase ls
  | .timeout h :: ls => if doomed h ls then erase ls else .timeout h :: erase ls
  | .die _ :: ls => erase ls
  | l :: ls => l :: erase ls

/-- The step is one of `ach_cancel`. -/
def cancels : Label H → Bool
  | .signal _ | .handler _ | .cancel _ | .task _ => true
  | _ => false

/-- The step is the return of a call. -/
def returns : Label H → Bool
  | .ret _ _ _ _ => true
  | _ => false

theorem isRead_fail (r : ReadOp) (st : AchStatus) : (r.fail st).isRead = true := by cases r <;> rfl

/-- A step of a handle stays in its call. -/
theorem inRead_adv {shm : AchHeader} {chan : AchChannel} {p : Pc} {m : Move}
    (h : Adv shm chan p m) :
    m.pc.inRead = p.inRead := by
  cases h with
  | acquire hp hm => rcases hp with rfl | rfl <;> rfl
  | canceled hc => exact isRead_fail _ _
  | mustWait hc hw hs => rfl
  | goOn hc => rfl
  | wait => rfl
  | body hs hr => exact hr
  | unlock hp hr => rcases hp with rfl | rfl <;> exact hr
  | putLock hm => rfl
  | putBody hf => rfl
  | putClear => rfl
  | putUnlock => rfl
  | putBroadcast => rfl

/-- A step inside a read changes nothing but the mutex. -/
theorem contents_adv {shm : AchHeader} {chan : AchChannel} {p : Pc} {m : Move}
    (h : Adv shm chan p m) (hp : p.inRead = true) :
    contents m.shm = contents shm ∧ m.broadcasts = false := by
  cases h <;> first | exact ⟨rfl, rfl⟩ | simp [Pc.inRead] at hp

theorem apply_pc_other {s : St H} {h g : H} {m : Move} (hg : g ≠ h) :
    (s.apply h m).pc g = if m.broadcasts then (s.pc g).wake else s.pc g := by
  unfold St.apply
  simp only [Function.update_of_ne hg]
  split_ifs <;> rfl

theorem apply_pc_self {s : St H} {h : H} {m : Move} : (s.apply h m).pc h = m.pc := by
  simp [St.apply]

theorem eq_of_contents {a b : AchHeader} (h : contents a = contents b) (hm : a.mutex = b.mutex) :
    a = b := by
  have ha : a = { contents a with mutex := a.mutex } := rfl
  have hb : b = { contents b with mutex := b.mutex } := rfl
  rw [ha, hb, h, hm]

theorem setMutex_eq_of_contents {a b : AchHeader} (h : contents a = contents b) (m : Mutex) :
    setMutex m a = setMutex m b :=
  eq_of_contents h rfl

theorem enter_of_contents {a b : AchHeader} (h : contents a = contents b) (chan : AchChannel)
    (op : Op) : enter a chan op = enter b chan op := by
  have hsize : a.dataSize = b.dataSize :=
    show (contents a).dataSize = (contents b).dataSize by rw [h]
  have hg : checkGuards a = checkGuards b :=
    show checkGuards (contents a) = checkGuards (contents b) by
    rw [h]
  cases op with
  | put buf len => cases buf <;> simp only [enter, hsize, hg]
  | read r => cases r <;> simp only [enter, hg]

/-- **A step of a handle** does the same on two blocks that differ in who left the mutex behind. -/
theorem advance_of_contents {dbg : Bool} {a b : AchHeader} {chan : AchChannel} {p : Pc} {m : Move}
    (hc : contents a = contents b) (ha : InOrder a p) (hb : InOrder b p)
    (hfree : a.mutex ≠ .held → b.mutex ≠ .held) (h : advance dbg a chan p = some m) :
    ∃ m', advance dbg b chan p = some m' ∧ contents m.shm = contents m'.shm ∧ m'.chan = m.chan ∧
      m'.pc = m.pc ∧ m'.broadcasts = m.broadcasts := by
  cases hh : p.holds with
  | true =>
    -- both runs hold the mutex: the blocks are the same
    have hab : a = b := eq_of_contents hc (by rw [ha.held hh, hb.held hh])
    subst hab
    exact ⟨m, h, rfl, rfl, rfl, rfl⟩
  | false =>
    have hlock : ∀ {q : Pc}, advance dbg a chan q = some m → (∀ hm : a.mutex = .held,
        advance dbg a chan q = none) → a.mutex ≠ .held := fun hq hn hm => by simp [hn hm] at hq
    cases p with
    | lock r =>
      have hm := hlock h fun hm => by simp [advance, hm]
      obtain ⟨hfa, hda⟩ := ha.free hm
      obtain ⟨hfb, hdb⟩ := hb.free (hfree hm)
      rw [advance, if_neg hm, out_chanLock_order dbg hfa hda, setMutex_eq_of_contents hc] at h
      exact ⟨m, by rw [advance, if_neg (hfree hm), out_chanLock_order dbg hfb hdb]; exact h, rfl,
        rfl, rfl, rfl⟩
    | woken r =>
      have hm := hlock h fun hm => by simp [advance, hm]
      obtain ⟨hfa, hda⟩ := ha.free hm
      obtain ⟨hfb, hdb⟩ := hb.free (hfree hm)
      rw [advance, if_neg hm, out_relock_order dbg hfa hda, setMutex_eq_of_contents hc] at h
      exact ⟨m, by rw [advance, if_neg (hfree hm), out_relock_order dbg hfb hdb]; exact h, rfl, rfl,
        rfl, rfl⟩
    | putLock buf len =>
      have hm := hlock h fun hm => by simp [advance, hm]
      obtain ⟨hfa, hda⟩ := ha.free hm
      obtain ⟨hfb, hdb⟩ := hb.free (hfree hm)
      have hset : { a with mutex := .held, dirty := true } =
        { b with mutex := .held, dirty := true } :=
        congrArg (fun s : AchHeader => { s with mutex := .held, dirty := true }) hc
      rw [advance, if_neg hm, out_wrlock_order dbg hfa hda, hset] at h
      exact ⟨m, by rw [advance, if_neg (hfree hm), out_wrlock_order dbg hfb hdb]; exact h, rfl, rfl,
        rfl, rfl⟩
    | putBroadcast =>
      rw [advance] at h
      obtain rfl := Option.some.inj h
      exact ⟨_, rfl, hc, rfl, rfl, rfl⟩
    | putBody buf len got =>
      have hgot := ha.got
      simp [stray, show got = false from hh] at hgot
    | putClear got =>
      have hgot := ha.got
      simp [stray, show got = false from hh] at hgot
    | putUnlock got =>
      have hgot := ha.got
      simp [stray, show got = false from hh] at hgot
    | idle => simp [advance] at h
    | dead => simp [advance] at h
    | blocked r => simp [advance] at h
    | done ret => simp [advance] at h
    | loop r => simp [Pc.holds] at hh
    | toWait r => simp [Pc.holds] at hh
    | body r => simp [Pc.holds] at hh
    | unrdlock ret => simp [Pc.holds] at hh
    | release ret => simp [Pc.holds] at hh

/-! ### The simulation -/

/-- **The two runs:** `s` the run with the deaths, `t` the run without the interrupted calls, `ls`
what is still to come. -/
structure Sim (ls : List (Label H)) (s t : St H) : Prop where
  contents : contents s.shm = contents t.shm
  live : ∀ h, doomed h ls = false → s.pc h ≠ .dead → t.pc h = s.pc h ∧ t.chan h = s.chan h
  gone : ∀ h, doomed h ls = true ∨ s.pc h = .dead → t.pc h = .idle
  sigS : ∀ h, s.sig h = []
  sigT : ∀ h, t.sig h = []
  tasksS : s.tasks = []
  tasksT : t.tasks = []
  ownedS : ∃ o, Owned o s
  ownedT : ∃ o, Owned o t
  mutexT : t.shm.mutex ≠ .abandoned

section
variable {ls : List (Label H)} {s t : St H}

/-- A mutex that is not held in the one run is free in the other. -/
theorem Sim.free (h : Sim ls s t) (hm : s.shm.mutex ≠ .held) : t.shm.mutex = .free := by
  obtain ⟨o, ho⟩ := h.ownedS
  obtain ⟨o', ho'⟩ := h.ownedT
  obtain rfl := ho.none_of_not_held hm
  have hnone : o' = none := by
    rcases o' with _ | g | i
    · rfl
    · have hg := (ho'.handles g).mpr rfl
      by_cases hlive : doomed g ls = false ∧ s.pc g ≠ .dead
      · rw [(h.live g hlive.1 hlive.2).1] at hg
        simpa using (ho.handles g).mp hg
      · have hgone : doomed g ls = true ∨ s.pc g = .dead := by
          by_contra hne
          simp only [not_or, Bool.not_eq_true] at hne
          exact hlive hne
        rw [h.gone g hgone] at hg
        simp [Pc.holds] at hg
    · obtain ⟨u, hu, -⟩ := (ho'.tasks i).mpr rfl
      simp [h.tasksT] at hu
  subst hnone
  exact (ho'.free rfl).resolve_right h.mutexT

/-- A step of the handle `h` in one run or in both: the other handles go on together. -/
theorem Sim.step {l : Label H} {s' t' : St H} (hsim : Sim (l :: ls) s t) (h : H) (w : Bool)
    (hdoom : ∀ g, g ≠ h → doomed g (l :: ls) = doomed g ls)
    (hs : ∀ g, g ≠ h → s'.pc g = (if w then (s.pc g).wake else s.pc g) ∧ s'.chan g = s.chan g)
    (ht : ∀ g, g ≠ h → t'.pc g = (if w then (t.pc g).wake else t.pc g) ∧ t'.chan g = t.chan g)
    (hsigS : s'.sig = s.sig) (hsigT : t'.sig = t.sig) (htasksS : s'.tasks = s.tasks)
    (htasksT : t'.tasks = t.tasks) (hownS : ∃ o, Owned o s') (hownT : ∃ o, Owned o t')
    (hm : t'.shm.mutex ≠ .abandoned) (hc : Machine.contents s'.shm = Machine.contents t'.shm)
    (hlive : doomed h ls = false → s'.pc h ≠ .dead → t'.pc h = s'.pc h ∧ t'.chan h = s'.chan h)
    (hgone : doomed h ls = true ∨ s'.pc h = .dead → t'.pc h = .idle) : Sim ls s' t' := by
  have hdead : ∀ g, g ≠ h → (s'.pc g = .dead ↔ s.pc g = .dead) := fun g hg => by
    rw [(hs g hg).1]
    split_ifs
    · cases s.pc g <;> simp [Pc.wake]
    · rfl
  refine ⟨hc, fun g hd hne => ?_, fun g hd => ?_, by rw [hsigS]; exact hsim.sigS,
    by rw [hsigT]; exact hsim.sigT, by rw [htasksS]; exact hsim.tasksS,
    by rw [htasksT]; exact hsim.tasksT, hownS, hownT, hm⟩ <;> by_cases hg : g = h
  · subst hg; exact hlive hd hne
  · obtain ⟨hpc, hchan⟩ := hsim.live g (by rw [hdoom g hg]; exact hd) (by rwa [Ne, ← hdead g hg])
    rw [(hs g hg).1, (hs g hg).2, (ht g hg).1, (ht g hg).2, hpc, hchan]
    exact ⟨rfl, rfl⟩
  · subst hg; exact hgone hd
  · rw [hdead g hg, ← hdoom g hg] at hd
    rw [(ht g hg).1, hsim.gone g hd]
    split_ifs <;> rfl

end

theorem mutex_adv {shm : AchHeader} {chan : AchChannel} {p : Pc} {m : Move} (h : Adv shm chan p m)
    (hm : shm.mutex ≠ .abandoned) : m.shm.mutex ≠ .abandoned := by
  cases h with
  | putBody hf => rw [mutex_of_fixedPart hf]; exact hm
  | _ => first | exact hm | simp [setMutex]

theorem adv_ne_dead {shm : AchHeader} {chan : AchChannel} {p : Pc} {m : Move}
    (h : Adv shm chan p m) :
    m.pc ≠ .dead := by
  cases h <;> simp

/-- The step is deleted and the runs still agree, or it is made in both. -/
def Simulated (dbg : Bool) (l : Label H) (ls : List (Label H)) (s' t : St H) : Prop :=
  (erase (l :: ls) = erase ls ∧ Sim ls s' t) ∨
    (erase (l :: ls) = l :: erase ls ∧ ∃ t', t.next dbg l = some t' ∧ Sim ls s' t')

section
variable {dbg : Bool} {ls : List (Label H)} {s t s' : St H} {h : H}

theorem Sim.next_owned {l : Label H} (hsim : Sim (l :: ls) s t) (hs : s.next dbg l = some s') :
    Trans s l s' ∧ ∃ o, Owned o s' := by
  obtain ⟨o, ho⟩ := hsim.ownedS
  have htr := next_cases ho hs
  exact ⟨htr, ho.trans htr⟩

theorem Sim.next_owned' {l : Label H} {t' : St H} (hsim : Sim (l :: ls) s t)
    (ht : t.next dbg l = some t') : ∃ o, Owned o t' := by
  obtain ⟨o, ho⟩ := hsim.ownedT
  exact ho.trans (next_cases ho ht)

theorem simulated_begin {op : Op} (hsim : Sim (.begin h op :: ls) s t)
    (hs : s.next dbg (.begin h op) = some s') : Simulated dbg (.begin h op) ls s' t := by
  obtain ⟨-, hownS⟩ := hsim.next_owned hs
  have hdoom : ∀ g, g ≠ h → doomed g (.begin h op :: ls) = doomed g ls := fun g hg => by
    simp [doomed, Ne.symm hg]
  simp only [St.next, hsim.sigS h] at hs
  split at hs
  · rename_i hidle _
    obtain ⟨p, hp, rfl⟩ := Option.map_eq_some_iff.mp hs
    obtain ⟨hpc, hchan⟩ := hsim.live h (by simp [doomed]) (by rw [hidle]; simp)
    rw [hidle] at hpc
    cases hd : doomed h ls with
    | true =>
      exact Or.inl ⟨by simp [erase, hd], hsim.step h false hdoom (fun g hg => by simp [hg])
        (fun g hg => by simp) rfl rfl rfl rfl hownS hsim.ownedT hsim.mutexT hsim.contents
        (fun h' => by simp [hd] at h') fun _ => hpc⟩
    | false =>
      have hnext : t.next dbg (.begin h op) = some { t with pc := Function.update t.pc h p } := by
        simp only [St.next, hpc, hsim.sigT h, hchan, ← enter_of_contents hsim.contents, hp,
          Option.map_some]
      refine Or.inr ⟨by simp [erase, hd], _, hnext,
        hsim.step h false hdoom (fun g hg => by simp [hg])
        (fun g hg => by simp [hg]) rfl rfl rfl rfl hownS (hsim.next_owned' hnext) hsim.mutexT
        hsim.contents (fun _ _ => by simp [hchan]) fun hgone => ?_⟩
      rcases hgone with h' | h'
      · simp [hd] at h'
      · have hent := entered_enter hp
        simp only [Function.update_self] at h'
        simp [h', entered] at hent
  · simp at hs

theorem apply_chan_other {s : St H} {g : H} {m : Move} (hg : g ≠ h) :
    (s.apply h m).chan g = s.chan g := by
  simp [St.apply, hg]

theorem simulated_step (hsim : Sim (.step h :: ls) s t) (hs : s.next dbg (.step h) = some s')
    (hread : doomed h ls = true → (s'.pc h).inRead = true) :
    Simulated dbg (.step h) ls s' t := by
  obtain ⟨o, ho⟩ := hsim.ownedS
  obtain ⟨o', ho'⟩ := hsim.ownedT
  obtain ⟨-, hownS⟩ := hsim.next_owned hs
  have hdoom : ∀ g, doomed g (.step h :: ls) = doomed g ls := fun _ => rfl
  simp only [St.next, hsim.sigS h] at hs
  obtain ⟨m, hm, rfl⟩ := Option.map_eq_some_iff.mp hs
  have hadv := advance_cases (ho.inOrder h) hm
  have hmove : ∀ (u : St H) (n : Move), n.broadcasts = m.broadcasts → ∀ g, g ≠ h →
      (u.apply h n).pc g = (if m.broadcasts then (u.pc g).wake else u.pc g) ∧
        (u.apply h n).chan g = u.chan g := fun u n hn g hg => by
    rw [apply_pc_other hg, apply_chan_other hg, hn]
    exact ⟨rfl, rfl⟩
  have hnd : s.pc h ≠ .dead := fun he => by
    rw [he] at hm
    simp [advance] at hm
  cases hd : doomed h ls with
  | true =>
    -- a step of a doomed handle: a read, of which the other run sees nothing
    have hin : (s.pc h).inRead = true := by
      have := hread hd
      rwa [apply_pc_self, inRead_adv hadv] at this
    obtain ⟨hcont, hbc⟩ := contents_adv hadv hin
    have hidle := hsim.gone h (Or.inl (by rw [hdoom]; exact hd))
    refine Or.inl ⟨by simp [erase, hd], hsim.step h false (fun g _ => hdoom g) (fun g hg => ?_)
      (fun g _ => by simp) rfl rfl rfl rfl hownS hsim.ownedT hsim.mutexT ?_ (fun h' => ?_)
      fun _ => hidle⟩
    · have := hmove s m rfl g hg
      rwa [hbc] at this
    · exact hcont.trans hsim.contents
    · simp [hd] at h'
  | false =>
    obtain ⟨hpc, hchan⟩ := hsim.live h (by rw [hdoom]; exact hd) hnd
    obtain ⟨m', hm', hc, hch, hp', hbc⟩ := advance_of_contents hsim.contents (ho.inOrder h)
      (by rw [← hpc]; exact ho'.inOrder h) (fun hne => by rw [hsim.free hne]; simp) hm
    rw [← hchan, ← hpc] at hm'
    have hnext : t.next dbg (.step h) = some (t.apply h m') := by
      simp only [St.next, hsim.sigT h, hm', Option.map_some]
    have hab : (t.apply h m').shm.mutex ≠ .abandoned :=
      mutex_adv (advance_cases (ho'.inOrder h) hm') hsim.mutexT
    refine Or.inr ⟨by simp [erase, hd], _, hnext, hsim.step h m.broadcasts (fun g _ => hdoom g)
      (hmove s m rfl) (hmove t m' hbc) rfl rfl rfl rfl hownS (hsim.next_owned' hnext) hab hc
      (fun _ _ => ?_) fun hgone => ?_⟩
    · rw [apply_pc_self, apply_pc_self, hp']
      simp [St.apply, hch]
    · rcases hgone with h' | h'
      · simp [hd] at h'
      · rw [apply_pc_self] at h'
        exact absurd h' (adv_ne_dead hadv)

theorem simulated_wake (hsim : Sim (.wake h :: ls) s t) (hs : s.next dbg (.wake h) = some s') :
    Simulated dbg (.wake h) ls s' t := by
  obtain ⟨-, hownS⟩ := hsim.next_owned hs
  have hdoom : ∀ g, doomed g (.wake h :: ls) = doomed g ls := fun _ => rfl
  simp only [St.next] at hs
  split at hs
  · rename_i r hb
    obtain rfl := Option.some.inj hs
    cases hd : doomed h ls with
    | true =>
      exact Or.inl ⟨by simp [erase, hd], hsim.step h false (fun g _ => hdoom g)
        (fun g hg => by simp [hg]) (fun g hg => by simp) rfl rfl rfl rfl hownS hsim.ownedT
        hsim.mutexT hsim.contents (fun h' => by simp [hd] at h')
        fun _ => hsim.gone h (Or.inl (by rw [hdoom]; exact hd))⟩
    | false =>
      obtain ⟨hpc, hchan⟩ := hsim.live h (by rw [hdoom]; exact hd) (by rw [hb]; simp)
      have hnext : t.next dbg (.wake h) =
        some { t with pc := Function.update t.pc h (.woken r) } := by
        simp only [St.next, hpc, hb]
      exact Or.inr ⟨by simp [erase, hd], _, hnext, hsim.step h false (fun g _ => hdoom g)
        (fun g hg => by simp [hg]) (fun g hg => by simp [hg]) rfl rfl rfl rfl hownS
        (hsim.next_owned' hnext) hsim.mutexT hsim.contents (fun _ _ => by simp [hchan])
        fun hgone => by simp [hd] at hgone⟩
  · simp at hs

theorem simulated_timeout (hsim : Sim (.timeout h :: ls) s t)
    (hs : s.next dbg (.timeout h) = some s') : Simulated dbg (.timeout h) ls s' t := by
  obtain ⟨-, hownS⟩ := hsim.next_owned hs
  have hdoom : ∀ g, doomed g (.timeout h :: ls) = doomed g ls := fun _ => rfl
  simp only [St.next, hsim.sigS h] at hs
  split at hs
  · rename_i r hw _
    split_ifs at hs with hc
    obtain rfl := Option.some.inj hs
    have hother : ∀ (u : St H) (m : Move), m.broadcasts = false → ∀ g, g ≠ h →
        (u.apply h m).pc g = (if false = true then (u.pc g).wake else u.pc g) ∧
          (u.apply h m).chan g = u.chan g := fun u m hm g hg => by
      rw [apply_pc_other hg, apply_chan_other hg, hm]
      exact ⟨rfl, rfl⟩
    cases hd : doomed h ls with
    | true =>
      exact Or.inl ⟨by simp [erase, hd], hsim.step h false (fun g _ => hdoom g)
        (hother s _ rfl) (fun g hg => by simp) rfl rfl rfl rfl hownS hsim.ownedT hsim.mutexT
        hsim.contents (fun h' => by simp [hd] at h')
        fun _ => hsim.gone h (Or.inl (by rw [hdoom]; exact hd))⟩
    | false =>
      obtain ⟨hpc, hchan⟩ := hsim.live h (by rw [hdoom]; exact hd) (by rw [hw]; simp)
      have hfree : t.shm.mutex = .free := hsim.free (by rw [hc.2]; simp)
      have hnext : t.next dbg (.timeout h) = some (t.apply h
          ⟨setMutex .held t.shm, t.chan h, .release (r.fail .timeout), false⟩) := by
        simp only [St.next, hpc, hw, hsim.sigT h, hc.1, hfree, and_self, if_true]
      exact Or.inr ⟨by simp [erase, hd], _, hnext, hsim.step h false (fun g _ => hdoom g)
        (hother s _ rfl) (hother t _ rfl) rfl rfl rfl rfl hownS (hsim.next_owned' hnext)
        (by simp [St.apply, setMutex]) hsim.contents
        (fun _ _ => by rw [apply_pc_self, apply_pc_self]; simp [St.apply, hchan])
        fun hgone => by rw [apply_pc_self] at hgone; simp [hd] at hgone⟩
  · simp at hs

theorem simulated_ret {ret : Ret} {chan : AchChannel} {shm : AchHeader}
    (hsim : Sim (.ret h ret chan shm :: ls) s t) (hs : s.next dbg (.ret h ret chan shm) = some s') :
    Simulated dbg (.ret h ret chan shm) ls s' t := by
  obtain ⟨-, hownS⟩ := hsim.next_owned hs
  have hdoom : ∀ g, g ≠ h → doomed g (.ret h ret chan shm :: ls) = doomed g ls := fun g hg => by
    simp [doomed, Ne.symm hg]
  simp only [St.next, hsim.sigS h] at hs
  split at hs
  · rename_i ret' hdone _
    split_ifs at hs with hc
    obtain ⟨rfl, rfl, rfl⟩ := hc
    obtain rfl := Option.some.inj hs
    obtain ⟨hpc, hchan⟩ := hsim.live h (by simp [doomed]) (by rw [hdone]; simp)
    have hnext : t.next dbg (.ret h ret' (s.chan h) (contents s.shm)) =
        some { t with pc := Function.update t.pc h .idle } := by
      simp only [St.next, hpc, hdone, hsim.sigT h, hchan, hsim.contents, and_self, if_true]
    exact Or.inr ⟨by simp [erase], _, hnext, hsim.step h false hdoom (fun g hg => by simp [hg])
      (fun g hg => by simp [hg]) rfl rfl rfl rfl hownS (hsim.next_owned' hnext) hsim.mutexT
      hsim.contents (fun _ _ => by simp [hchan]) fun _ => by simp⟩
  · simp at hs

theorem simulated_die (hsim : Sim (.die h :: ls) s t) (hs : s.next dbg (.die h) = some s') :
    Simulated dbg (.die h) ls s' t := by
  obtain ⟨htr, hownS⟩ := hsim.next_owned hs
  have hdoom : ∀ g, g ≠ h → doomed g (.die h :: ls) = doomed g ls := fun g hg => by
    simp [doomed, Ne.symm hg]
  cases htr with
  | die hr =>
    refine Or.inl ⟨rfl, hsim.step h false hdoom (fun g hg => by simp [hg]) (fun g hg => by simp) rfl
      rfl
      rfl rfl hownS hsim.ownedT hsim.mutexT ?_ (fun _ hne => by simp at hne)
      fun _ => hsim.gone h (Or.inl (by simp [doomed]))⟩
    simp only
    split_ifs
    · exact hsim.contents
    · exact hsim.contents

/-- **The simulation step.** -/
theorem Sim.next {l : Label H} (hsim : Sim (l :: ls) s t) (hl : cancels l = false)
    (hs : s.next dbg l = some s') (hread : ∀ g, doomed g ls = true → (s'.pc g).inRead = true) :
    Simulated dbg l ls s' t := by
  cases l with
  | begin h op => exact simulated_begin hsim hs
  | step h => exact simulated_step hsim hs (hread h)
  | wake h => exact simulated_wake hsim hs
  | timeout h => exact simulated_timeout hsim hs
  | ret h ret chan shm => exact simulated_ret hsim hs
  | die h => exact simulated_die hsim hs
  | signal h => simp [cancels] at hl
  | handler h => simp [cancels] at hl
  | cancel h => simp [cancels] at hl
  | task i => simp [cancels] at hl

end

/-! ### Whole runs -/

/-- A get dies with the mutex held; then a put of another process finds the mutex abandoned. -/
def sampleDeath : List (Label Bool) :=
  [.begin true (.read sampleGet), .step true, .die true, .begin false (.put (some fun _ => 7) 2),
    .step false, .step false, .step false, .step false, .step false]

/-- The put is about to return. -/
def sampleEnd : St Bool := (run true sampleDeath sampleSt).getD sampleSt

/-- The whole run: the put has returned `ACH_OK`. -/
def sampleRun : List (Label Bool) :=
  sampleDeath ++ [.ret false (.put .ok) (sampleEnd.chan false) (contents sampleEnd.shm)]

end Ach.Sync.ReaderDeath
