import Ach.Sync.Atomic
import Ach.Sync.Wakeup

/-! # Interleaved calls behave like atomic ones

`Ach.Channel.Runs` takes every call as one atomic step. The machine takes a call in several steps,
between which other handles, cancellers and signal handlers come in. The two agree: in every run of
the machine each call takes effect at one instant between its beginning and its return, and at these
instants, in their order, the calls are a run of `Ach.Channel.Runs` with the same results
(`linearizable`). An `ach_cancel` takes effect where it sets the flag.

A put takes effect in its critical section, a read where it passes the tests of `rdlock`: there it
has the mutex and has seen the cancel flag for the last time. A get that times out does not look at
the channel again, and a frame can have come in the meantime; its instant is the last test that
found nothing. Whether a get is going to time out is not known then, so the rest of the run is
looked at (`timesOut`). -/

namespace Ach.Sync.Linearize

open Ach.Lib.Run
open Ach.Channel.Types Ach.Channel.Lock Ach.Channel.Put Ach.Channel.Get Ach.Channel.Create
open Ach.Channel.Invariant Ach.Channel.PutSpec Ach.Channel.Frame Ach.Channel.GetSpec
open Ach.Channel.History
open Ach.Channel.Runs (Call Reply Sys Event puts)
open Ach.Sync.Machine Ach.Sync.Lockset Ach.Sync.Wakeup Ach.Sync.Atomic

variable {H : Type} [DecidableEq H]

/-! ### The simulation -/

/-- In the rest of the run the handle takes `n` steps and then its wait times out. -/
def timesOut (h : H) : ℕ → List (Label H) → Bool
  | _, [] => false
  | n, .timeout g :: ls => if g = h then decide (n = 0) else timesOut h n ls
  | 0, .step g :: ls => if g = h then false else timesOut h 0 ls
  | n + 1, .step g :: ls => if g = h then timesOut h n ls else timesOut h (n + 1) ls
  | n, _ :: ls => timesOut h n ls

/-- A get that waits has taken effect if it is going to time out. -/
def Waiting (h : H) (n : ℕ) (ls : List (Label H)) (r : ReadOp) (chan : AchChannel) (p : Progress) :
    Prop :=
  if (r.abstime && timesOut h n ls) = true then
    ∃ rep, p = .took (.read r) rep ∧ Gives (r.fail .timeout) chan rep
  else p = .called (.read r)

/-- The call has taken effect and is to give `ret`. -/
def Took (ret : Ret) (chan : AchChannel) (p : Progress) : Prop :=
  ∃ op rep, p = .took op rep ∧ Gives ret chan rep

/-- **How far a call is**, for every point of the machine: `abs` is the handle in the atomic
system. -/
def Stage (dbg : Bool) (shm : AchHeader) (h : H) (ls : List (Label H)) (abs chan : AchChannel)
    (p : Progress) : Pc → Prop
  | .idle => p = .idle ∧ abs = chan
  | .dead => True
  | .lock r | .loop r => p = .called (.read r) ∧ abs = chan ∧ chan.mapped = true
  | .toWait r => Waiting h 1 ls r chan p ∧ abs = chan ∧ chan.mapped = true
  | .blocked r | .woken r => Waiting h 0 ls r chan p ∧ abs = chan ∧ chan.mapped = true
  -- the critical section is still to come, but what it will do is settled
  | .body r => ∀ ret chan', bodyOut dbg shm chan r = .ok (ret, chan') →
      Took ret chan' p ∧ abs = chan' ∧ ret.afterUnlock .ok = ret
  | .unrdlock ret => Took ret chan p ∧ abs = chan ∧ ret.afterUnlock .ok = ret
  | .release ret | .done ret => Took ret chan p ∧ abs = chan
  | .putLock buf len => p = .called (.put (some buf) len) ∧ abs = chan ∧ chan.mapped = true ∧
      len ≠ 0 ∧ len ≤ shm.dataSize
  | .putBody buf len _ => p = .called (.put (some buf) len) ∧ abs = chan ∧ chan.mapped = true ∧
      len ≠ 0 ∧ len ≤ shm.dataSize ∧ shm.dirty = true
  | .putClear _ | .putUnlock _ | .putBroadcast => Took (.put .ok) chan p ∧ abs = chan

/-- **The simulation relation** between the machine and the atomic system. -/
structure Lin (dbg : Bool) (ls : List (Label H)) (s : St H) (a : Sys H) (p : H → Progress) :
    Prop where
  owned : ∃ o, Owned o s
  shm : a.shm = settled s.shm
  guards : GuardsOk s.shm
  stage : ∀ h, Stage dbg s.shm h ls (a.chan h) (s.chan h) (p h) (s.pc h)

/-! ### The others -/

theorem timesOut_cons {h : H} {l : Label H} (hs : l ≠ .step h) (ht : l ≠ .timeout h) (n : ℕ)
    (ls : List (Label H)) : timesOut h n (l :: ls) = timesOut h n ls := by
  cases l with
  | step g =>
    have hg : g ≠ h := fun he => hs (by rw [he])
    cases n <;> simp [timesOut, hg]
  | timeout g =>
    have hg : g ≠ h := fun he => ht (by rw [he])
    simp [timesOut, hg]
  | _ => simp [timesOut]

section
variable {dbg : Bool} {shm shm' : AchHeader} {h : H} {l : Label H} {ls : List (Label H)}
  {abs chan : AchChannel} {p : Progress} {pc : Pc}

theorem Waiting.tail {n : ℕ} {r : ReadOp} (hw : Waiting h n (l :: ls) r chan p) (hs : l ≠ .step h)
    (ht : l ≠ .timeout h) : Waiting h n ls r chan p := by
  rwa [Waiting, timesOut_cons hs ht] at hw

/-- What the other parties do leaves a call where it is. -/
theorem Stage.tail (hst : Stage dbg shm h (l :: ls) abs chan p pc) (hs : l ≠ .step h)
    (ht : l ≠ .timeout h) (hshm : pc.holds = true → shm' = shm) (hsize : shm'.dataSize = shm.dataSize)
    (hgot : stray pc = false) : Stage dbg shm' h ls abs chan p pc := by
  cases pc with
  | toWait r => exact ⟨hst.1.tail hs ht, hst.2⟩
  | blocked r => exact ⟨hst.1.tail hs ht, hst.2⟩
  | woken r => exact ⟨hst.1.tail hs ht, hst.2⟩
  | body r =>
    obtain rfl := hshm rfl
    exact hst
  | putLock buf len =>
    simp only [Stage, hsize] at hst ⊢
    exact hst
  | putBody buf len got =>
    obtain rfl : got = true := by simpa [stray] using hgot
    obtain rfl := hshm rfl
    exact hst
  | _ => exact hst

/-- A broadcast wakes the call, if it waits. -/
theorem Stage.wake (hst : Stage dbg shm h ls abs chan p pc) :
    Stage dbg shm h ls abs chan p pc.wake := by
  cases pc <;> exact hst

theorem Waiting.cancel {n : ℕ} {r : ReadOp} (hw : Waiting h n ls r chan p) :
    Waiting h n ls r { chan with cancel := true } p := by
  unfold Waiting at hw ⊢
  split_ifs at hw ⊢
  · obtain ⟨rep, hp, hg⟩ := hw
    exact ⟨rep, hp, hg.cancel true⟩
  · exact hw

theorem Took.cancel {ret : Ret} (ht : Took ret chan p) (c : Bool) :
    Took ret { chan with cancel := c } p := by
  obtain ⟨op, rep, hp, hg⟩ := ht
  exact ⟨op, rep, hp, hg.cancel c⟩

/-- The cancel flag is set while the call is under way. -/
theorem Stage.cancel (hst : Stage dbg shm h ls abs chan p pc) :
    Stage dbg shm h ls { abs with cancel := true } { chan with cancel := true } p pc := by
  cases pc with
  | idle => exact ⟨hst.1, by rw [hst.2]⟩
  | dead => trivial
  | lock r => exact ⟨hst.1, by rw [hst.2.1], hst.2.2⟩
  | loop r => exact ⟨hst.1, by rw [hst.2.1], hst.2.2⟩
  | toWait r => exact ⟨hst.1.cancel, by rw [hst.2.1], hst.2.2⟩
  | blocked r => exact ⟨hst.1.cancel, by rw [hst.2.1], hst.2.2⟩
  | woken r => exact ⟨hst.1.cancel, by rw [hst.2.1], hst.2.2⟩
  | body r =>
    intro ret chan' hb
    -- the section gave the same before the flag was set
    have hb₀ := bodyOut_cancel hb chan.cancel
    obtain ⟨ht, habs, hret⟩ := hst ret _ hb₀
    have hb₁ := bodyOut_cancel hb₀ true
    rw [hb, Outcome.ok.injEq, Prod.mk.injEq] at hb₁
    rw [hb₁.2]
    exact ⟨ht.cancel true, by rw [habs], hret⟩
  | unrdlock ret => exact ⟨hst.1.cancel true, by rw [hst.2.1], hst.2.2⟩
  | release ret => exact ⟨hst.1.cancel true, by rw [hst.2]⟩
  | done ret => exact ⟨hst.1.cancel true, by rw [hst.2]⟩
  | putLock buf len => exact ⟨hst.1, by rw [hst.2.1], hst.2.2⟩
  | putBody buf len got => exact ⟨hst.1, by rw [hst.2.1], hst.2.2⟩
  | putClear got => exact ⟨hst.1.cancel true, by rw [hst.2]⟩
  | putUnlock got => exact ⟨hst.1.cancel true, by rw [hst.2]⟩
  | putBroadcast => exact ⟨hst.1.cancel true, by rw [hst.2]⟩

end

/-! ### A step of the handle itself -/

/-- The handle's call takes effect, or nothing does: the effects, the atomic system after them, and
how far the call is then. -/
inductive Takes (dbg : Bool) (a : Sys H) (h : H) : Progress → List (Effect H) → Sys H → Progress →
    Prop
  | nothing {p : Progress} : Takes dbg a h p [] a p
  | call {op : Op} (ws : List WaitEnd) {r : Reply} {a' : Sys H}
      (hc : a.call dbg h (callOf op ws) = .ok (r, a')) :
      Takes dbg a h (.called op) [.call h (callOf op ws) r] a' (.took op r)

theorem Takes.atomic {dbg : Bool} {a a' : Sys H} {h : H} {p q : Progress} {es : List (Effect H)}
    (ht : Takes dbg a h p es a' q) : Atomic.atomic dbg es a = some a' := by
  cases ht with
  | nothing => rfl
  | call ws hc => rw [Atomic.atomic, apply_call.mpr hc]; rfl

theorem Takes.placed {dbg : Bool} {a a' : Sys H} {h : H} {p : H → Progress} {q : Progress}
    {es : List (Effect H)} (ht : Takes dbg a h (p h) es a' q) {ms : List (Mark H)}
    (hms : Placed ms (Function.update p h q)) : Placed (es.map .effect ++ ms) p := by
  generalize hp : p h = p₀ at ht
  cases ht with
  | nothing =>
    rw [← hp, Function.update_eq_self] at hms
    exact hms
  | call ws hc => exact ⟨_, ws, hp, rfl, hms⟩

theorem Takes.flagged {dbg : Bool} {a a' : Sys H} {h : H} {p q : Progress} {es : List (Effect H)}
    (ht : Takes dbg a h p es a' q) {s : St H} {ms : List (Mark H)} (hms : Flagged dbg ms none s) :
    Flagged dbg (es.map .effect ++ ms) none s := by
  cases ht with
  | nothing => exact hms
  | call ws hc => exact ⟨rfl, hms⟩

/-- A call changes the cursor of its own handle only. -/
theorem Takes.chan_other {dbg : Bool} {a a' : Sys H} {h g : H} {p q : Progress}
    {es : List (Effect H)} (ht : Takes dbg a h p es a' q) (hg : g ≠ h) : a'.chan g = a.chan g := by
  cases ht with
  | nothing => rfl
  | @call op ws r a' hc =>
    unfold Sys.call at hc
    split at hc <;> obtain ⟨x, -, hx⟩ := Outcome.bind_eq_ok.mp hc <;>
      obtain ⟨-, rfl⟩ : _ ∧ _ := by simpa using hx
    · rfl
    · exact Function.update_of_ne hg _ _
    · exact Function.update_of_ne hg _ _

/-- The clean block that the atomic system has. -/
theorem clean_settled {shm : AchHeader} (hg : GuardsOk shm) : Clean (settled shm) := ⟨rfl, rfl, hg⟩

theorem setMutex_settled {shm : AchHeader} (hm : shm.mutex = .held) (hd : shm.dirty = false) :
    setMutex .held (settled shm) = shm := by
  cases shm
  simp_all [settled, setMutex]

theorem dirty_settled {shm : AchHeader} (hm : shm.mutex = .held) (hd : shm.dirty = true) :
    { settled shm with mutex := .held, dirty := true } = shm := by
  cases shm
  simp_all [settled]

theorem afterUnlock_bodyOut {dbg : Bool} {shm : AchHeader} {chan chan' : AchChannel} {r : ReadOp}
    {ret : Ret} (hb : bodyOut dbg shm chan r = .ok (ret, chan')) : ret.afterUnlock .ok = ret := by
  cases r with
  | get size abstime opts =>
    rw [bodyOut] at hb
    obtain ⟨p, -, he⟩ := Outcome.bind_eq_ok.mp hb
    obtain ⟨rfl, -⟩ : Ret.get p.1.1 = ret ∧ p.1.2 = chan' := by simpa using he
    rfl
  | flush =>
    rw [bodyOut] at hb
    obtain ⟨p, -, he⟩ := Outcome.bind_eq_ok.mp hb
    obtain ⟨rfl, -⟩ : Ret.flush .ok = ret ∧ p.1 = chan' := by simpa using he
    rfl

section
variable {dbg : Bool} {shm : AchHeader} {h : H} {ls : List (Label H)} {chan : AchChannel}
  {p : Progress} {a : Sys H}

/-- The atomic system can follow the handle to where it stands after a step. -/
def Follows (dbg : Bool) (h : H) (ls : List (Label H)) (a : Sys H) (p : Progress)
    (shm : AchHeader) (chan : AchChannel) (pc : Pc) : Prop :=
  ∃ es a' q, Takes dbg a h p es a' q ∧ a'.shm = settled shm ∧
    Stage dbg shm h ls (a'.chan h) chan q pc

/-- A step with no effect. -/
theorem Follows.nothing {pc : Pc} (hshm : a.shm = settled shm)
    (hst : Stage dbg shm h ls (a.chan h) chan p pc) : Follows dbg h ls a p shm chan pc :=
  ⟨[], a, p, .nothing, hshm, hst⟩

/-- At the head of the loop of `rdlock` a read takes effect, unless it is going to wait and will not
time out. -/
theorem follows_loop {r : ReadOp} {m : Move} (hg : GuardsOk shm) (hm : shm.mutex = .held)
    (hd : shm.dirty = false) (hshm : a.shm = settled shm)
    (hst : Stage dbg shm h (.step h :: ls) (a.chan h) chan p (.loop r))
    (ha : advance dbg shm chan (.loop r) = some m) :
    Follows dbg h ls a p m.shm m.chan m.pc := by
  obtain ⟨rfl, rfl, hmap⟩ := hst
  have hc : Clean a.shm := by rw [hshm]; exact clean_settled hg
  have hheld : setMutex .held a.shm = shm := by rw [hshm]; exact setMutex_settled hm hd
  have hlast : a.shm.lastSeq = shm.lastSeq := by rw [hshm]; rfl
  rw [advance] at ha
  obtain rfl := Option.some.inj ha
  by_cases hcancel : (a.chan h).cancel = true
  · rw [if_pos hcancel]
    have hcall := call_canceled dbg r hc hmap hcancel
    exact ⟨_, _, _, .call [] hcall, hshm, ⟨_, _, rfl, gives_replyOf _ _ _⟩, rfl⟩
  have hlive : (a.chan h).cancel = false := by simpa using hcancel
  rw [if_neg hcancel]
  by_cases hold : r.wait = true ∧ (a.chan h).seqNum = shm.lastSeq
  · rw [if_pos hold]
    by_cases ht : (r.abstime && timesOut h 1 ls) = true
    · have habs : r.abstime = true := (Bool.and_eq_true_iff.mp ht).1
      have hcall := call_timeout dbg hc hmap hlive hold.1 habs (hlast ▸ hold.2)
      refine ⟨_, _, _, .call [.timedOut] hcall, hshm, ?_, rfl, hmap⟩
      rw [Waiting, if_pos ht]
      exact ⟨_, rfl, gives_replyOf _ _ _⟩
    · refine .nothing hshm ⟨?_, rfl, hmap⟩
      rw [Waiting, if_neg ht]
  · rw [if_neg hold]
    have hnew : r.wait = true → (a.chan h).seqNum ≠ a.shm.lastSeq := fun hw he =>
      hold ⟨hw, he.trans hlast⟩
    rcases hb : bodyOut dbg shm (a.chan h) r with ⟨ret, chan'⟩ | _ | _ | _ | _
    · have hcall := call_read dbg (h := h) hc hmap hlive hnew (hheld.symm ▸ hb)
      refine ⟨_, _, _, .call [] hcall, hshm, fun ret₁ chan₁ hb₁ => ?_⟩
      rw [hb, Outcome.ok.injEq, Prod.mk.injEq] at hb₁
      obtain ⟨rfl, rfl⟩ := hb₁
      exact ⟨⟨_, _, rfl, gives_replyOf _ _ _⟩, Function.update_self _ _ _, afterUnlock_bodyOut hb⟩
    -- a section that does not return takes no effect
    all_goals exact .nothing hshm fun ret₁ chan₁ hb₁ => by rw [hb] at hb₁; simp at hb₁

/-- In the section of a read what has taken effect comes about. -/
theorem follows_body {r : ReadOp} {m : Move} (hshm : a.shm = settled shm)
    (hst : Stage dbg shm h (.step h :: ls) (a.chan h) chan p (.body r))
    (ha : advance dbg shm chan (.body r) = some m) :
    Follows dbg h ls a p m.shm m.chan m.pc := by
  cases r with
  | get size abstime opts =>
    obtain ⟨x, shm', hx, rfl⟩ := moveOn_eq_some ha
    obtain ⟨rfl, -⟩ := (getCritical_holds (P := (· = shm)) (C := fun _ => True) chan size opts dbg
      shm rfl).2 _ _ hx
    exact .nothing hshm (hst _ _ (by rw [bodyOut, hx]; rfl))
  | flush =>
    rw [advance] at ha
    obtain ⟨x, shm', hx, rfl⟩ := moveOn_eq_some ha
    obtain ⟨rfl, -⟩ := (flushCritical_holds (P := (· = shm)) (C := fun _ => True) chan dbg shm
      rfl).2 _ _ hx
    exact .nothing hshm (hst _ _ (by rw [bodyOut, hx]; rfl))

/-- A put takes effect in its section. -/
theorem follows_putBody {buf : ℕ → UInt8} {len : ℕ} {m : Move} (hg : GuardsOk shm)
    (hm : shm.mutex = .held) (hshm : a.shm = settled shm)
    (hst : Stage dbg shm h (.step h :: ls) (a.chan h) chan p (.putBody buf len true))
    (ha : advance dbg shm chan (.putBody buf len true) = some m) :
    Follows dbg h ls a p m.shm m.chan m.pc := by
  obtain ⟨rfl, rfl, hmap, hlen, hfit, hd⟩ := hst
  have hc : Clean a.shm := by rw [hshm]; exact clean_settled hg
  obtain ⟨⟨⟩, shm', hx, rfl⟩ := moveOn_eq_some ha
  have hcall := call_put dbg (h := h) hc hlen hmap (by rw [hshm]; exact hfit)
    (by rw [hshm, dirty_settled hm hd]; exact hx)
  exact ⟨_, _, _, .call [] hcall, rfl, ⟨_, _, rfl, rfl⟩, rfl⟩

/-- **Every step of a handle is followed.** -/
theorem follows_advance {pc : Pc} {m : Move} (hg : GuardsOk shm) (ho : InOrder shm pc)
    (hd : pc.holds = true → writes pc = false → shm.dirty = false) (hshm : a.shm = settled shm)
    (hst : Stage dbg shm h (.step h :: ls) (a.chan h) chan p pc)
    (ha : advance dbg shm chan pc = some m) :
    Follows dbg h ls a p m.shm m.chan m.pc := by
  have hadv := advance_cases ho ha
  cases pc with
  | idle => simp [advance] at ha
  | dead => simp [advance] at ha
  | blocked r => simp [advance] at ha
  | done ret => simp [advance] at ha
  | lock r =>
    cases hadv with
    | acquire hp hm =>
      obtain rfl : r = _ := by simpa using hp
      exact .nothing hshm hst
    | unlock hp => simp at hp
  | loop r => exact follows_loop hg (ho.held rfl) (hd rfl rfl) hshm hst ha
  | toWait r =>
    obtain rfl := Option.some.inj ha
    exact .nothing hshm ⟨by simpa [Waiting, timesOut] using hst.1, hst.2⟩
  | woken r =>
    cases hadv with
    | acquire hp hm =>
      obtain rfl : r = _ := by simpa using hp
      exact .nothing hshm ⟨by simpa [Waiting, timesOut] using hst.1, hst.2⟩
    | unlock hp => simp at hp
  | body r => exact follows_body hshm hst ha
  | unrdlock ret =>
    have hunlock := out_unrdlock_held dbg (clean_settled hg)
    rw [setMutex_settled (ho.held rfl) (hd rfl rfl)] at hunlock
    rw [advance, hunlock] at ha
    obtain rfl := Option.some.inj ha
    obtain ⟨ht, habs, hret⟩ := hst
    refine .nothing hshm ⟨?_, habs⟩
    rw [hret]
    exact ht
  | release ret =>
    rw [advance, out_pthreadMutexUnlock_held dbg (ho.held rfl)] at ha
    obtain rfl := Option.some.inj ha
    exact .nothing hshm hst
  | putLock buf len =>
    cases hadv with
    | acquire hp => simp at hp
    | unlock hp => simp at hp
    | putLock hm =>
      obtain ⟨hp, habs, hmap, hlen, hfit⟩ := hst
      exact .nothing hshm ⟨hp, habs, hmap, hlen, hfit, rfl⟩
  | putBody buf len got =>
    obtain rfl : got = true := by simpa [stray] using ho.got
    exact follows_putBody hg (ho.held rfl) hshm hst ha
  | putClear got =>
    cases hadv with
    | acquire hp => simp at hp
    | unlock hp => simp at hp
    | putClear => exact .nothing hshm hst
  | putUnlock got =>
    cases hadv with
    | acquire hp => simp at hp
    | unlock hp => simp at hp
    | putUnlock => exact .nothing hshm hst
  | putBroadcast =>
    obtain rfl := Option.some.inj ha
    exact .nothing hshm hst

end

/-! ### A step of the system -/

/-- The geometry and the guards of the block never change. -/
theorem fixed_adv {shm : AchHeader} {chan : AchChannel} {pc : Pc} {m : Move}
    (ha : Adv shm chan pc m) :
    m.shm.dataSize = shm.dataSize ∧ (GuardsOk m.shm ↔ GuardsOk shm) := by
  cases ha with
  | putBody hf => exact ⟨dataSize_of_fixedPart hf, guardsOk_of_fixedPart hf⟩
  | _ => exact ⟨rfl, Iff.rfl⟩

theorem fixed_trans {s s' : St H} {l : Label H} (ht : Trans s l s') :
    s'.shm.dataSize = s.shm.dataSize ∧ (GuardsOk s'.shm ↔ GuardsOk s.shm) := by
  cases ht with
  | step ha => exact fixed_adv ha
  | die hr =>
    dsimp only
    split_ifs <;> exact ⟨rfl, Iff.rfl⟩
  | _ => exact ⟨rfl, Iff.rfl⟩

/-- While a handle holds the mutex nobody else touches the block. -/
theorem shm_of_holds {o : Option (H ⊕ ℕ)} {s s' : St H} {l : Label H} {g : H} (ho : Owned o s)
    (hg : (s.pc g).holds = true) (ht : Trans s l s') (hs : l ≠ .step g) (hd : l ≠ .die g) :
    s'.shm = s.shm := by
  obtain rfl := (ho.handles g).mp hg
  have hheld : s.shm.mutex = .held := ho.held (by simp)
  have howner : ∀ h, (s.pc h).holds = true → h = g := fun h hh => by
    simpa using ((ho.handles h).mp hh).symm
  cases ht with
  | @step h m ha =>
    have hne : (s.pc h).holds = false := by
      by_contra hh
      exact hs (by rw [howner h (by simpa using hh)])
    generalize s.pc h = pc at ha hne
    cases ha with
    | acquire hp hm => exact absurd hheld hm
    | putLock hm => exact absurd hheld hm
    | unlock hp => rcases hp with rfl | rfl <;> simp [Pc.holds] at hne
    | canceled => rfl
    | mustWait => rfl
    | goOn => rfl
    | body => rfl
    | putBroadcast => rfl
    | wait => simp [Pc.holds] at hne
    | putBody => simp [Pc.holds] at hne
    | putClear => simp [Pc.holds] at hne
    | putUnlock => simp [Pc.holds] at hne
  | timeout hw hm => simp [hm] at hheld
  | @die h hr =>
    have hne : (s.pc h).holds = false := by
      by_contra hh
      exact hd (by rw [howner h (by simpa using hh)])
    simp [hne]
  | taskLock ht hp hm => exact absurd hheld hm
  | taskUnlock ht hp => simpa using (ho.tasks _).mp ⟨_, ht, by rw [hp]; rfl⟩
  | _ => rfl

section
variable {dbg : Bool} {l : Label H} {ls : List (Label H)} {s s' : St H} {a : Sys H}
  {p : H → Progress} {h : H}

/-- The handles that the step is not of. -/
theorem Lin.other (hlin : Lin dbg (l :: ls) s a p) (ht : Trans s l s') {g : H}
    (hl : l ≠ .step g ∧ l ≠ .timeout g ∧ l ≠ .die g)
    (hpc : s'.pc g = s.pc g ∨ s'.pc g = (s.pc g).wake) :
    Stage dbg s'.shm g ls (a.chan g) (s.chan g) (p g) (s'.pc g) := by
  obtain ⟨o, ho⟩ := hlin.owned
  have hst := (hlin.stage g).tail hl.1 hl.2.1
    (fun hg => shm_of_holds ho hg ht hl.1 hl.2.2) (fixed_trans ht).1 (ho.got g)
  rcases hpc with hpc | hpc <;> rw [hpc]
  · exact hst
  · exact hst.wake

omit [DecidableEq H] in
theorem sets_task {i : ℕ} {t : Canceller H} (ht : s.tasks[i]? = some t) (hp : t.pc ≠ .set) :
    sets s (.task i) = none := by
  obtain ⟨h, child, pc⟩ := t
  cases pc <;> simp_all [sets]

omit [DecidableEq H] in
theorem sets_taskSet {i : ℕ} {t : Canceller H} (ht : s.tasks[i]? = some t) (hp : t.pc = .set) :
    sets s (.task i) = some t.handle := by
  obtain ⟨h, child, pc⟩ := t
  obtain rfl : pc = .set := hp
  simp [sets, ht]

/-- What a step of the system is in the atomic one. -/
def Linearized (dbg : Bool) (l : Label H) (ls : List (Label H)) (s s' : St H) (a : Sys H)
    (p : H → Progress) : Prop :=
  ∃ es a' p', atomic dbg es a = some a' ∧ Lin dbg ls s' a' p' ∧
    (∀ ms, Placed ms p' → Placed (.step l :: (es.map .effect ++ ms)) p) ∧
    ∀ ms, Flagged dbg ms none s' → Flagged dbg (es.map .effect ++ ms) (sets s l) s'

/-- A step of one handle. -/
theorem Lin.follow (hlin : Lin dbg (l :: ls) s a p) (p₀ : Progress) (ht : Trans s l s')
    (hl : ∀ g, g ≠ h → l ≠ .step g ∧ l ≠ .timeout g ∧ l ≠ .die g)
    (hchan : ∀ g, g ≠ h → s'.chan g = s.chan g)
    (hpc : ∀ g, g ≠ h → s'.pc g = s.pc g ∨ s'.pc g = (s.pc g).wake)
    (hf : Follows dbg h ls a p₀ s'.shm (s'.chan h) (s'.pc h)) (hsets : sets s l = none)
    (hplaced : ∀ ms, Placed ms (Function.update p h p₀) → Placed (.step l :: ms) p) :
    Linearized dbg l ls s s' a p := by
  obtain ⟨o, ho⟩ := hlin.owned
  obtain ⟨es, a', q, htakes, hshm, hstage⟩ := hf
  refine ⟨es, a', Function.update p h q, htakes.atomic,
    ⟨ho.trans ht, hshm, (fixed_trans ht).2.mpr hlin.guards, fun g => ?_⟩, fun ms hms => ?_,
    fun ms hms => by rw [hsets]; exact htakes.flagged hms⟩
  · by_cases hg : g = h
    · subst hg
      rw [Function.update_self]
      exact hstage
    · rw [Function.update_of_ne hg, htakes.chan_other hg, hchan g hg]
      exact hlin.other ht (hl g hg) (hpc g hg)
  · refine hplaced _ (Takes.placed (q := q) (by rw [Function.update_self]; exact htakes) ?_)
    rw [Function.update_idem]
    exact hms

/-- A step of a party that is not a handle. -/
theorem Lin.pass (hlin : Lin dbg (l :: ls) s a p) (ht : Trans s l s')
    (hl : ∀ g, l ≠ .step g ∧ l ≠ .timeout g ∧ l ≠ .die g) (hchan : s'.chan = s.chan)
    (hshm : settled s'.shm = settled s.shm)
    (hpc : ∀ g, s'.pc g = s.pc g ∨ s'.pc g = (s.pc g).wake) (hsets : sets s l = none)
    (hplaced : ∀ ms, Placed ms p → Placed (.step l :: ms) p) : Linearized dbg l ls s s' a p := by
  obtain ⟨o, ho⟩ := hlin.owned
  refine ⟨[], a, p, rfl, ⟨ho.trans ht, hlin.shm.trans hshm.symm,
    (fixed_trans ht).2.mpr hlin.guards, fun g => ?_⟩, hplaced, fun ms hms => by rwa [hsets]⟩
  rw [hchan]
  exact hlin.other ht (hl g) (hpc g)

/-- A step that sets the handle's cancel flag. -/
theorem Lin.flag (hlin : Lin dbg (l :: ls) s a p) (ht : Trans s l s')
    (hl : ∀ g, l ≠ .step g ∧ l ≠ .timeout g ∧ l ≠ .die g)
    (hchan : s'.chan = Function.update s.chan h { s.chan h with cancel := true })
    (hshm : s'.shm = s.shm) (hpc : s'.pc = s.pc) (hsets : sets s l = some h)
    (hplaced : ∀ ms, Placed ms p → Placed (.step l :: ms) p) : Linearized dbg l ls s s' a p := by
  obtain ⟨o, ho⟩ := hlin.owned
  refine ⟨[.cancel h], setCancel a h, p, rfl, ⟨ho.trans ht, by rw [hshm]; exact hlin.shm,
    (fixed_trans ht).2.mpr hlin.guards, fun g => ?_⟩, fun ms hms => hplaced _ hms,
    fun ms hms => ⟨hsets, hms⟩⟩
  have hst := hlin.other ht (hl g) (Or.inl (by rw [hpc]))
  rw [hchan]
  by_cases hg : g = h
  · subst hg
    simpa [setCancel] using hst.cancel
  · simpa [setCancel, hg] using hst

/-- A call that begins: a put that is refused takes effect at once. -/
theorem follows_enter {chan : AchChannel} {op : Op} {pc : Pc} (hlin : Lin dbg (l :: ls) s a p)
    (habs : a.chan h = chan) (he : enter s.shm chan op = some pc) :
    Follows dbg h ls a (.called op) s.shm chan pc := by
  have hshm := hlin.shm
  have hg : checkGuards s.shm = .ok := if_pos hlin.guards
  cases op with
  | put buf len =>
    have hrefused : ∀ ret, pc = .done ret →
        Follows dbg h ls a (.called (.put buf len)) s.shm chan pc := by
      rintro ret rfl
      have hcall := call_put_refused dbg (h := h) (hshm ▸ clean_settled hlin.guards)
        (by rw [hshm, habs]; exact he)
      exact ⟨_, _, _, .call [] hcall, hshm,
        ⟨_, _, rfl, by rw [habs]; exact gives_replyOf _ _ _⟩, habs⟩
    cases buf with
    | none => exact hrefused _ (by simpa [enter] using he.symm)
    | some buf =>
      rw [enter] at he
      by_cases h0 : len = 0 ∨ chan.mapped = false
      · exact hrefused _ (by simpa [h0] using he.symm)
      by_cases hbig : s.shm.dataSize < len
      · exact hrefused _ (by simpa [h0, hg, hbig] using he.symm)
      · obtain rfl : Pc.putLock buf len = pc := by simpa [h0, hg, hbig] using he
        rw [not_or] at h0
        exact .nothing hshm ⟨rfl, habs, by simpa using h0.2, h0.1, by simpa using hbig⟩
  | read r =>
    have hlock : chan.mapped = true ∧ pc = .lock r := by
      cases r <;> cases hm : chan.mapped <;> simp_all [enter]
    obtain ⟨hmap, rfl⟩ := hlock
    exact .nothing hshm ⟨rfl, habs, hmap⟩

/-- **Every step of the system is followed.** -/
theorem Lin.next (hlin : Lin dbg (l :: ls) s a p) (hs : s.next dbg l = some s') :
    Linearized dbg l ls s s' a p := by
  obtain ⟨o, ho⟩ := hlin.owned
  have ht := next_cases ho hs
  have hcases := ht
  cases l with
  | begin h op =>
    simp only [St.next] at hs
    split at hs
    · rename_i hidle _
      obtain ⟨pc, hpc, rfl⟩ := Option.map_eq_some_iff.mp hs
      obtain ⟨hp, habs⟩ : p h = .idle ∧ a.chan h = s.chan h := by
        simpa [Stage, hidle] using hlin.stage h
      refine hlin.follow (h := h) (.called op) ht (fun g hg => by simp) (fun _ _ => rfl)
        (fun g hg => Or.inl (Function.update_of_ne hg _ _)) ?_ rfl fun ms hms => ⟨hp, hms⟩
      dsimp only
      rw [Function.update_self]
      exact follows_enter hlin habs hpc
    · simp at hs
  | step h =>
    simp only [St.next] at hs
    split at hs
    · obtain ⟨m, hm, rfl⟩ := Option.map_eq_some_iff.mp hs
      refine hlin.follow (h := h) (p h) ht
        (fun g hg => ⟨by simpa using Ne.symm hg, by simp, by simp⟩)
        (fun g hg => Function.update_of_ne hg _ _) (fun g hg => ?_) ?_ rfl fun ms hms => ?_
      · cases hb : m.broadcasts <;> simp [St.apply, hg, hb]
      · simp only [St.apply, Function.update_self]
        refine follows_advance hlin.guards (ho.inOrder h) (fun hh hw => ?_) hlin.shm
          (hlin.stage h) hm
        obtain rfl := (ho.handles h).mp hh
        exact ho.clean_of_handle hw
      · rw [Function.update_eq_self] at hms
        exact hms
    · simp at hs
  | wake h =>
    simp only [St.next] at hs
    split at hs
    · rename_i r hb
      obtain rfl := Option.some.inj hs
      refine hlin.pass ht (by simp) rfl rfl (fun g => ?_) rfl fun ms hms => hms
      by_cases hg : g = h
      · subst hg
        simp [hb, Pc.wake]
      · simp [hg]
    · simp at hs
  | timeout h =>
    simp only [St.next] at hs
    split at hs
    · rename_i r hw _
      split_ifs at hs with hc
      obtain rfl := Option.some.inj hs
      obtain ⟨hwait, habs, -⟩ : Stage dbg s.shm h (.timeout h :: ls) (a.chan h) (s.chan h) (p h)
          (.woken r) := by simpa [hw] using hlin.stage h
      rw [Waiting, if_pos (by simp [hc.1, timesOut])] at hwait
      obtain ⟨rep, hp, hgives⟩ := hwait
      refine hlin.follow (h := h) (p h) ht
        (fun g hg => ⟨by simp, by simpa using Ne.symm hg, by simp⟩)
        (fun g hg => Function.update_of_ne hg _ _)
        (fun g hg => Or.inl (Function.update_of_ne hg _ _)) ?_ rfl fun ms hms => ?_
      · refine .nothing hlin.shm ?_
        simp only [St.apply, Function.update_self]
        exact ⟨⟨_, rep, hp, hgives⟩, habs⟩
      · rw [Function.update_eq_self] at hms
        exact hms
    · simp at hs
  | ret h ret chan shm =>
    simp only [St.next] at hs
    split at hs
    · rename_i ret' hd _
      split_ifs at hs with hc
      obtain ⟨rfl, rfl, -⟩ := hc
      obtain rfl := Option.some.inj hs
      obtain ⟨⟨op, rep, hp, hgives⟩, habs⟩ : Took ret' (s.chan h) (p h) ∧ a.chan h = s.chan h := by
        simpa [Stage, hd] using hlin.stage h
      refine hlin.follow (h := h) .idle ht (fun g hg => by simp)
        (fun _ _ => rfl) (fun g hg => Or.inl (Function.update_of_ne hg _ _)) ?_ rfl
        fun ms hms => ⟨op, rep, hp, hgives, hms⟩
      refine .nothing hlin.shm ?_
      simpa [Stage] using habs
    · simp at hs
  | die h =>
    simp only [St.next] at hs
    split_ifs at hs with hr hh
    all_goals
      obtain rfl := Option.some.inj hs
      refine hlin.follow (h := h) .gone ht
        (fun g hg => ⟨by simp, by simp, by simpa using Ne.symm hg⟩)
        (fun _ _ => rfl) (fun g hg => Or.inl (Function.update_of_ne hg _ _)) ?_ rfl
        fun ms hms => hms
      refine .nothing hlin.shm ?_
      simp [Stage]
  | signal h =>
    obtain rfl := Option.some.inj hs
    exact hlin.pass ht (by simp) rfl rfl (fun _ => Or.inl rfl) rfl fun ms hms => hms
  | handler h =>
    cases hcases with
    | handlerSet hsig =>
      exact hlin.flag ht (by simp) rfl rfl rfl (by simp [sets, hsig]) fun ms hms => hms
    | handlerFork hsig =>
      exact hlin.pass ht (by simp) rfl rfl (fun _ => Or.inl rfl) (by simp [sets, hsig])
        fun ms hms => hms
  | cancel h =>
    obtain rfl := Option.some.inj hs
    exact hlin.pass ht (by simp) rfl rfl (fun _ => Or.inl rfl) rfl fun ms hms => hms
  | task i =>
    cases hcases with
    | taskLock htask hp =>
      exact hlin.pass ht (by simp) rfl rfl (fun _ => Or.inl rfl) (sets_task htask (by simp [hp]))
        fun ms hms => hms
    | taskSet htask hp =>
      exact hlin.flag ht (by simp) rfl rfl rfl (sets_taskSet htask hp) fun ms hms => hms
    | taskUnlock htask hp =>
      exact hlin.pass ht (by simp) rfl rfl (fun _ => Or.inl rfl) (sets_task htask (by simp [hp]))
        fun ms hms => hms
    | taskBroadcast htask hp =>
      exact hlin.pass ht (by simp) rfl rfl (fun _ => Or.inr rfl) (sets_task htask (by simp [hp]))
        fun ms hms => hms

end

/-! ### Whole runs -/

theorem atomic_append (dbg : Bool) (es es' : List (Effect H)) (a : Sys H) :
    atomic dbg (es ++ es') a = (atomic dbg es a).bind (atomic dbg es') := by
  induction es generalizing a with
  | nil => rfl
  | cons e es ih =>
    rw [List.cons_append, atomic, atomic, Option.bind_assoc]
    exact congrArg _ (funext ih)

omit [DecidableEq H] in
theorem labels_cons (l : Label H) (es : List (Effect H)) (ms : List (Mark H)) :
    labels (.step l :: (es.map .effect ++ ms)) = l :: labels ms := by
  induction es with
  | nil => rfl
  | cons e es ih => exact ih

omit [DecidableEq H] in
theorem effects_cons (l : Label H) (es : List (Effect H)) (ms : List (Mark H)) :
    effects (.step l :: (es.map .effect ++ ms)) = es ++ effects ms := by
  induction es with
  | nil => rfl
  | cons e es ih => exact congrArg (e :: ·) ih

/-- **Every run is followed.** -/
theorem run_followed (dbg : Bool) : ∀ (ls : List (Label H)) (s s' : St H) (a : Sys H)
    (p : H → Progress), Lin dbg ls s a p → run dbg ls s = some s' →
    ∃ ms a' p', labels ms = ls ∧ Placed ms p ∧ Flagged dbg ms none s ∧
      atomic dbg (effects ms) a = some a' ∧ Lin dbg [] s' a' p' := by
  intro ls
  induction ls with
  | nil =>
    intro s s' a p hlin hrun
    obtain rfl := Option.some.inj hrun
    exact ⟨[], a, p, rfl, trivial, rfl, rfl, hlin⟩
  | cons l ls ih =>
    intro s s' a p hlin hrun
    obtain ⟨s₁, hs₁, hrun⟩ := Option.bind_eq_some_iff.mp hrun
    obtain ⟨es, a₁, p₁, hes, hlin₁, hplaced, hflagged⟩ := hlin.next hs₁
    obtain ⟨ms, a', p', hlabels, hms, hflags, hatomic, hend⟩ := ih s₁ s' a₁ p₁ hlin₁ hrun
    refine ⟨.step l :: (es.map .effect ++ ms), a', p', by rw [labels_cons, hlabels],
      hplaced ms hms, ⟨rfl, s₁, hs₁, hflagged ms hflags⟩, ?_, hend⟩
    rw [effects_cons, atomic_append, hes]
    exact hatomic

/-- A channel at rest is the atomic system itself. -/
theorem lin_of_quiet {dbg : Bool} {s : St H} (hc : Clean s.shm) (hq : Quiet s)
    (ls : List (Label H)) : Lin dbg ls s ⟨s.shm, s.chan⟩ fun _ => .idle := by
  refine ⟨⟨none, owned_of_quiet hc hq⟩, ?_, hc.guards, fun h => ?_⟩
  · obtain ⟨hm, hd, -⟩ := hc
    cases hs : s.shm
    simp_all [settled]
  · rw [hq.pc h]
    exact ⟨rfl, rfl⟩

/-- **Linearizability.** In every run from a channel at rest, by any number of handles with any
cancellers, signal handlers and deaths of readers among them, every call takes effect at one instant
between its beginning and its return, an `ach_cancel` with its step that sets the flag. At these
instants, in their order, the calls are calls of the atomic system with the results that the run
returned, and it ends with the same channel. -/
theorem linearizable (dbg : Bool) {s : St H} (hc : Clean s.shm) (hq : Quiet s)
    {ls : List (Label H)} {s' : St H} (hrun : run dbg ls s = some s') :
    ∃ ms a', labels ms = ls ∧ Placed ms (fun _ => .idle) ∧ Flagged dbg ms none s ∧
      atomic dbg (effects ms) ⟨s.shm, s.chan⟩ = some a' ∧ a'.shm = settled s'.shm ∧
      ∀ h, s'.pc h = .idle → a'.chan h = s'.chan h := by
  obtain ⟨ms, a', p', hlabels, hms, hflags, hatomic, hend⟩ :=
    run_followed dbg ls s s' _ _ (lin_of_quiet hc hq ls) hrun
  refine ⟨ms, a', hlabels, hms, hflags, hatomic, hend.shm, fun h hidle => ?_⟩
  have hst := hend.stage h
  rw [hidle] at hst
  exact hst.2

/-- A get with a deadline waits; a put comes, and the get times out before it has the mutex
again. -/
def sampleLate : List (Label Bool) :=
  [.begin true (.read (.get 8 true ⟨true, false, false⟩)), .step true, .step true, .step true,
    .begin false (.put (some fun _ => 7) 2), .step false, .step false, .step false, .step false,
    .step false, .timeout true, .step true]

/-- Where the get is about to return. -/
def sampleLast : St Bool := (run true sampleLate sampleSt).getD sampleSt

/-- The whole run: the get has returned `ACH_TIMEOUT`, with a frame in the channel, and the handle
of the put is canceled. -/
def sampleTimeout : List (Label Bool) :=
  sampleLate ++
    [.ret true (.get (.bare .timeout)) (sampleLast.chan true) (contents sampleLast.shm),
      .cancel false, .task 0, .task 0, .task 0, .task 0]

theorem linearizable_sample : ∃ s' ms a', run true sampleTimeout sampleSt = some s' ∧
    s'.shm.lastSeq = 1 ∧ labels ms = sampleTimeout ∧ Placed ms (fun _ => .idle) ∧
    Flagged true ms none sampleSt ∧
    atomic true (effects ms) ⟨sampleSt.shm, sampleSt.chan⟩ = some a' ∧ a'.shm = settled s'.shm := by
  obtain ⟨s', hs'⟩ : ∃ s', run true sampleTimeout sampleSt = some s' :=
    Option.isSome_iff_exists.mp (by decide +kernel)
  have hseq : s'.shm.lastSeq = 1 := by
    have : (run true sampleTimeout sampleSt).map (fun s => s.shm.lastSeq) = some 1 := by
      decide +kernel
    rw [hs'] at this
    exact Option.some.inj this
  obtain ⟨ms, a', hlabels, hplaced, hflagged, hatomic, hshm, -⟩ :=
    linearizable true (clean_created 2 3) ⟨fun _ => rfl, fun _ => rfl, rfl⟩ hs'
  exact ⟨s', ms, a', hs', hseq, hlabels, hplaced, hflagged, hatomic, hshm⟩

end Ach.Sync.Linearize
