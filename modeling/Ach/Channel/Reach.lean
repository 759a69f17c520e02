import Ach.Channel.Runs

/-! # Reachable states

A channel that `ach_create` made, with any number of handles that open it and call `ach_put`,
`ach_get` and `ach_flush` in any order, each call one atomic step under the mutex. A state comes
with the list of the frames accepted so far.

A get that waits lets the other handles take steps meanwhile; `Waits` says that its waits are of
this kind, and `achGet_waits` that such a call is the critical section of `ach_get` in the state in
which its wait ends. -/

namespace Ach.Channel.Reach

open Ach.Lib.Run Ach.Lib.Word
open Ach.Channel.Types Ach.Channel.Lock Ach.Channel.Put Ach.Channel.Get Ach.Channel.Create
open Ach.Channel.Invariant Ach.Channel.PutSpec Ach.Channel.Frame Ach.Channel.GetSpec
open Ach.Channel.History Ach.Channel.Runs

variable {H : Type} [DecidableEq H] {dbg : Bool}

/-- One step of handle `h`, with the frames it adds to the channel: an open, or a call on an open
handle that returns. -/
inductive Step (dbg : Bool) (h : H) : Sys H → List (List UInt8) → Sys H → Prop where
  | opens {s : Sys H} {env : OpenEnv} {name : List UInt8} {mapAnon : Bool} {chan : AchChannel}
      (ho : achOpen env name mapAnon s.shm = .ok (.ok chan)) :
      Step dbg h s [] ⟨s.shm, Function.update s.chan h chan⟩
  | call {s t : Sys H} {c : Call} {r : Reply} (hm : (s.chan h).mapped = true)
      (hc : s.call dbg h c = .ok (r, t)) : Step dbg h s (Event.frames ⟨h, c, r⟩) t

/-- Steps of the handles in `who`. -/
inductive Steps (dbg : Bool) (who : H → Prop) : Sys H → List (List UInt8) → Sys H → Prop where
  | refl (s : Sys H) : Steps dbg who s [] s
  | step {s t u : Sys H} {fs gs : List (List UInt8)} {h : H} (hs : Steps dbg who s fs t)
      (hw : who h) (hstep : Step dbg h t gs u) : Steps dbg who s (fs ++ gs) u

/-- **The reachable states** of a channel of `cnt` frames of `size` bytes. -/
inductive Reachable (dbg : Bool) (cnt size : ℕ) : List (List UInt8) → Sys H → Prop where
  | create {env : CreateEnv} {name : List UInt8} {mapAnon : Bool} {s : Sys H}
      (hc : achCreate dbg env name cnt size mapAnon = .ok (.ok s.shm))
      (hm : ∀ h, (s.chan h).mapped = false) : Reachable dbg cnt size [] s
  | step {s t : Sys H} {hist fs : List (List UInt8)} {h : H} (hs : Reachable dbg cnt size hist s)
      (hstep : Step dbg h s fs t) : Reachable dbg cnt size (hist ++ fs) t

theorem Steps.trans {who : H → Prop} {s t u : Sys H} {fs gs : List (List UInt8)}
    (h1 : Steps dbg who s fs t) (h2 : Steps dbg who t gs u) : Steps dbg who s (fs ++ gs) u := by
  induction h2 with
  | refl =>
    rwa [List.append_nil]
  | step _ hw hstep ih =>
    rw [← List.append_assoc]
    exact .step ih hw hstep

theorem Reachable.steps {who : H → Prop} {cnt size : ℕ} {hist fs : List (List UInt8)} {s t : Sys H}
    (hs : Reachable dbg cnt size hist s) (hsteps : Steps dbg who s fs t) :
    Reachable dbg cnt size (hist ++ fs) t := by
  induction hsteps with
  | refl =>
    rwa [List.append_nil]
  | step _ _ hstep ih =>
    rw [← List.append_assoc]
    exact .step ih hstep

/-! ### One step -/

/-- A step of one handle does not touch another one. -/
theorem Step.chan_other {h g : H} {s t : Sys H} {fs : List (List UInt8)} (hs : Step dbg h s fs t)
    (hne : g ≠ h) : t.chan g = s.chan g := by
  cases hs with
  | opens ho => exact Function.update_of_ne hne _ _
  | call hm hc =>
    rename_i c r
    cases c with
    | put buf len =>
      obtain ⟨p, -, hr⟩ := Outcome.bind_eq_ok.mp hc
      obtain ⟨-, rfl⟩ : Reply.put p.1 p.2 = r ∧ { s with shm := p.2 } = t := by simpa using hr
      rfl
    | get size abstime opts waits =>
      obtain ⟨p, -, hr⟩ := Outcome.bind_eq_ok.mp hc
      obtain ⟨-, rfl⟩ : Reply.get p.1.1 p.1.2 = r ∧ ⟨p.2, Function.update s.chan h p.1.2⟩ = t := by
        simpa using hr
      exact Function.update_of_ne hne _ _
    | flush =>
      obtain ⟨p, -, hr⟩ := Outcome.bind_eq_ok.mp hc
      obtain ⟨-, rfl⟩ : Reply.flush p.1.1 p.1.2 = r ∧
          ⟨p.2, Function.update s.chan h p.1.2⟩ = t := by
        simpa using hr
      exact Function.update_of_ne hne _ _

theorem Steps.chan_other {h : H} {s t : Sys H} {fs : List (List UInt8)}
    (hs : Steps dbg (· ≠ h) s fs t) : t.chan h = s.chan h := by
  induction hs with
  | refl =>
    rfl
  | step _ hw hstep ih =>
    rw [hstep.chan_other (Ne.symm hw), ih]

theorem Step.clean {h : H} {s t : Sys H} {fs : List (List UInt8)} (hs : Step dbg h s fs t)
    (hc : Clean s.shm) : Clean t.shm := by
  cases hs with
  | opens ho => exact hc
  | call hm hcall => exact call_clean hc hcall

theorem Steps.clean {who : H → Prop} {s t : Sys H} {fs : List (List UInt8)}
    (hs : Steps dbg who s fs t) (hc : Clean s.shm) : Clean t.shm := by
  induction hs with
  | refl =>
    exact hc
  | step _ _ hstep ih =>
    exact hstep.clean ih

theorem Reachable.clean {cnt size : ℕ} {hist : List (List UInt8)} {s : Sys H}
    (hs : Reachable dbg cnt size hist s) : Clean s.shm := by
  induction hs with
  | create hc hm =>
    rw [(achCreate_ok hc).1]
    exact clean_created cnt size
  | step _ hstep ih =>
    exact hstep.clean ih

/-! ### The invariant -/

/-- **What holds in every reachable state** before the sequence numbers run out: the block
represents the frames accepted, and the cursor of every open handle is sound. -/
structure Consistent (cnt size : ℕ) (hist : List (List UInt8)) (s : Sys H) : Prop where
  inv : ∃ kept, Inv hist kept s.shm
  clean : Clean s.shm
  indexCnt : s.shm.indexCnt = cnt
  dataSize : s.shm.dataSize = cnt * size
  cursor : ∀ h, (s.chan h).mapped = true → Cursor hist.length cnt (s.chan h)
  live : ∀ h, (s.chan h).mapped = true → (s.chan h).cancel = false

section
variable {cnt size : ℕ} {hist : List (List UInt8)} {s t : Sys H}

/-- The step lemma for a put. -/
theorem Consistent.put {h : H} {buf : Option (ℕ → UInt8)} {len : ℕ} {r : Reply}
    (hs : Consistent cnt size hist s) (hm : (s.chan h).mapped = true)
    (hseq : hist.length + 1 < 2 ^ 64) (hcall : s.call dbg h (.put buf len) = .ok (r, t)) :
    Consistent cnt size (hist ++ Event.frames ⟨h, .put buf len, r⟩) t := by
  obtain ⟨kept, hinv⟩ := hs.inv
  obtain ⟨p, hp, hr⟩ := Outcome.bind_eq_ok.mp hcall
  obtain ⟨rfl, rfl⟩ : Reply.put p.1 p.2 = r ∧ { s with shm := p.2 } = t := by simpa using hr
  by_cases ha : Accepts s.shm.dataSize ⟨s.chan h, buf, len⟩
  · obtain ⟨hbuf, hpos, hlen⟩ := ha
    obtain ⟨buf, rfl⟩ := Option.isSome_iff_exists.mp hbuf
    have hcnt : 0 < cnt := by
      have hsz := hs.dataSize
      simp only at hpos hlen
      exact Nat.pos_of_mul_pos_right (show 0 < cnt * size by omega)
    obtain ⟨kept', shm', hout, hinv', hfix⟩ := achPut_spec dbg buf hinv hs.clean hm
      (by rw [hs.indexCnt]; exact hcnt) hpos hlen fun _ => hseq
    rw [hout, Outcome.ok.injEq] at hp
    subst hp
    refine ⟨⟨kept', hinv'⟩, clean_of_fixedPart hfix hs.clean, ?_, ?_, fun g hg => ?_, hs.live⟩
    · exact (indexCnt_of_fixedPart hfix).trans hs.indexCnt
    · exact (dataSize_of_fixedPart hfix).trans hs.dataSize
    · exact (hs.cursor g hg).mono (by simp)
  · obtain ⟨r', hout, hr'⟩ := achPut_rejected dbg hs.clean.guards ha
    have hout' : out (achPut (s.chan h) buf len) dbg s.shm = .ok (r', s.shm) := hout
    rw [hout', Outcome.ok.injEq] at hp
    subst hp
    have hnone : Event.frames (⟨h, .put buf len, .put r' s.shm⟩ : Event H) = [] := by
      rcases hr' with rfl | rfl <;> cases buf <;> rfl
    rw [hnone, List.append_nil]
    exact hs

/-- A read moves the cursor of its handle to a sound position. -/
theorem Consistent.read {h : H} {chan : AchChannel} (hs : Consistent cnt size hist s)
    (hcur : Cursor hist.length cnt chan) (hlive : chan.cancel = false) :
    Consistent cnt size hist ⟨s.shm, Function.update s.chan h chan⟩ := by
  refine ⟨hs.inv, hs.clean, hs.indexCnt, hs.dataSize, fun g hg => ?_, fun g hg => ?_⟩
  · by_cases hgh : g = h
    · subst hgh; simpa using hcur
    · simp only [Function.update_of_ne hgh] at hg ⊢
      exact hs.cursor g hg
  · by_cases hgh : g = h
    · subst hgh; simpa using hlive
    · simp only [Function.update_of_ne hgh] at hg ⊢
      exact hs.live g hg

/-- The step lemma for a get. -/
theorem Consistent.get {h : H} {bufSize : ℕ} {abstime : Bool} {opts : AchGetOpts}
    {ws : List WaitEnd} {r : Reply} (hs : Consistent cnt size hist s)
    (hm : (s.chan h).mapped = true) (hseq : hist.length + 1 < 2 ^ 64)
    (hcall : s.call dbg h (.get bufSize abstime opts ws) = .ok (r, t)) :
    Consistent cnt size hist t := by
  obtain ⟨kept, hinv⟩ := hs.inv
  obtain ⟨p, hp, hr⟩ := Outcome.bind_eq_ok.mp hcall
  obtain ⟨-, rfl⟩ : Reply.get p.1.1 p.1.2 = r ∧ ⟨p.2, Function.update s.chan h p.1.2⟩ = t := by
    simpa using hr
  have hcur := hs.cursor h hm
  rw [← hs.indexCnt] at hcur
  by_cases hnext : opts.last = true ∨ (s.chan h).nextIndex < s.shm.indexCnt
  swap
  · -- the handle remembers no slot of the index array, and has found no frame
    simp only [not_or, Bool.not_eq_true, not_lt] at hnext
    obtain ⟨⟨res, chan'⟩, u⟩ := p
    have hshm := (call_read hs.clean (by simp) hcall).1
    have hchan := achGet_unready dbg hinv.indexLen hs.clean hm hnext.1 hnext.2 hp
    simp only at hshm hchan
    subst hshm hchan
    exact hs.read (hs.cursor h hm) (hs.live h hm)
  rcases achGet_spec dbg bufSize abstime opts ws hinv hs.clean hm hcur hnext hseq with
    hb | ⟨res, chan', hout, hres⟩
  · rw [hb] at hp
    simp at hp
  · rw [hout, Outcome.ok.injEq] at hp
    subst hp
    rw [hs.indexCnt] at hcur hres
    rcases hres with hr | hd
    · have hchan := hr.cursor
      subst hchan
      exact hs.read hcur (hs.live h hm)
    · have hchan := hd.cursor
      refine hs.read ⟨hd.le, Or.inl ?_⟩ ?_
      · rw [hchan]
      · rw [hchan]
        exact hs.live h hm

/-- The step lemma for a flush. -/
theorem Consistent.flush {h : H} {r : Reply} (hs : Consistent cnt size hist s)
    (hm : (s.chan h).mapped = true) (hseq : hist.length + 1 < 2 ^ 64)
    (hcall : s.call dbg h .flush = .ok (r, t)) : Consistent cnt size hist t := by
  obtain ⟨kept, hinv⟩ := hs.inv
  obtain ⟨p, hp, hr⟩ := Outcome.bind_eq_ok.mp hcall
  obtain ⟨-, rfl⟩ : Reply.flush p.1.1 p.1.2 = r ∧ ⟨p.2, Function.update s.chan h p.1.2⟩ = t := by
    simpa using hr
  obtain ⟨r', chan', hout, hres⟩ := achFlush_spec dbg hinv.toRep hs.clean hm
  rw [hout, Outcome.ok.injEq] at hp
  subst hp
  rcases hres with ⟨-, rfl⟩ | ⟨-, rfl⟩
  · rw [Nat.mod_eq_of_lt (by omega), hs.indexCnt]
    exact hs.read ⟨le_rfl, Or.inl rfl⟩ (hs.live h hm)
  · exact hs.read (hs.cursor h hm) (hs.live h hm)

/-- **The step lemma.** -/
theorem Consistent.step {h : H} {fs : List (List UInt8)} (hs : Consistent cnt size hist s)
    (hseq : hist.length + 1 < 2 ^ 64) (hstep : Step dbg h s fs t) :
    Consistent cnt size (hist ++ fs) t := by
  cases hstep with
  | opens ho =>
    rw [List.append_nil, (achOpen_ok ho).1]
    exact hs.read ⟨Nat.zero_le _, Or.inr ⟨rfl, rfl⟩⟩ rfl
  | call hm hcall =>
    rename_i c r
    cases c with
    | put buf len => exact hs.put hm hseq hcall
    | get bufSize abstime opts ws =>
      rw [show Event.frames (⟨h, .get bufSize abstime opts ws, r⟩ : Event H) = [] from rfl,
        List.append_nil]
      exact hs.get hm hseq hcall
    | flush =>
      rw [show Event.frames (⟨h, .flush, r⟩ : Event H) = [] from rfl, List.append_nil]
      exact hs.flush hm hseq hcall

/-- **Every reachable state is consistent.** -/
theorem Reachable.consistent (hs : Reachable dbg cnt size hist s)
    (hwrap : NoWrap cnt size) (hseq : hist.length + 1 < 2 ^ 64) : Consistent cnt size hist s := by
  induction hs with
  | create hc hm =>
    rename_i s
    obtain ⟨hshm, hlen⟩ := achCreate_ok hc
    have hsum := createLen_eq hwrap
    have hmul : wmul cnt size = cnt * size := wmul_eq (by unfold NoWrap at hwrap; omega)
    have hcs : cnt < 2 ^ 63 := by unfold sizeofIndex at hsum; omega
    have hinv := inv_created hcs (show wmul cnt size < 2 ^ 63 by rw [hmul]; omega)
    refine ⟨⟨0, by rw [hshm]; exact hinv⟩, by rw [hshm]; exact clean_created cnt size,
      by rw [hshm]; rfl, by rw [hshm]; exact hmul, fun h hh => ?_, fun h hh => ?_⟩
    · rw [hm h] at hh
      simp at hh
    · rw [hm h] at hh
      simp at hh
  | step _ hstep ih =>
    rw [List.length_append] at hseq
    exact (ih (by omega)).step (by omega) hstep

end

/-! ### Waiting -/

/-- **Waits** of handle `h` in which the other handles take steps, with the frames these add. A wait
ends with a wake-up, or because its time has run out. -/
inductive Waits (dbg : Bool) (h : H) : Sys H → List WaitEvent → List (List UInt8) → Prop where
  | nil (s : Sys H) : Waits dbg h s [] []
  | cons {s t : Sys H} {w : WaitEvent} {ws : List WaitEvent} {fs gs : List (List UInt8)}
      (hsteps : Steps dbg (· ≠ h) s fs t) (hothers : w.others s.shm = t.shm)
      (hcancel : w.cancel = false) (hresult : w.result = .zero ∨ w.result = .etimedout)
      (hws : Waits dbg h t ws gs) : Waits dbg h s (w :: ws) (fs ++ gs)

/-- Waits in which nobody does anything are waits. -/
theorem waits_quiet (h : H) (s : Sys H) (ws : List WaitEnd) :
    Waits dbg h s (ws.map WaitEnd.event) [] := by
  induction ws with
  | nil =>
    exact .nil s
  | cons w ws ih =>
    rw [← List.append_nil []]
    refine Waits.cons (.refl s) ?_ ?_ ?_ ih
    · cases w <;> rfl
    · cases w <;> rfl
    · cases w <;> simp [WaitEnd.event, WaitEvent.quiet]

/-- **The handle waits through** `ws`, in which the block `b` becomes `c`: before each of the waits
there is nothing new for it, and in none of them its time runs out. -/
inductive WaitedThrough (abstime : Bool) (chan : AchChannel) :
    List WaitEvent → AchHeader → AchHeader → Prop where
  | nil (b : AchHeader) : WaitedThrough abstime chan [] b b
  | cons {w : WaitEvent} {ws : List WaitEvent} {b c : AchHeader} (hsame : chan.seqNum = b.lastSeq)
      (htime : ¬ (w.result = .etimedout ∧ abstime = true))
      (hws : WaitedThrough abstime chan ws (w.others b) c) :
      WaitedThrough abstime chan (w :: ws) b c

/-- The handle waits on: after all waits there is nothing new for it. -/
def WaitsOn (abstime : Bool) (chan : AchChannel) (ws : List WaitEvent) (b : AchHeader) : Prop :=
  ∃ c, WaitedThrough abstime chan ws b c ∧ chan.seqNum = c.lastSeq

/-- The time runs out in a wait before which there is nothing new; the block is then `t`. -/
def RunsOut (abstime : Bool) (chan : AchChannel) (ws : List WaitEvent) (b t : AchHeader) : Prop :=
  ∃ past w rest c, ws = past ++ w :: rest ∧ WaitedThrough abstime chan past b c ∧
    chan.seqNum = c.lastSeq ∧ w.result = .etimedout ∧ abstime = true ∧ t = w.others c

/-- The wait ends as soon as there is something new; the block is then `t`. -/
def Wakes (abstime : Bool) (chan : AchChannel) (ws : List WaitEvent) (b t : AchHeader) : Prop :=
  ∃ past, past <+: ws ∧ WaitedThrough abstime chan past b t ∧ chan.seqNum ≠ t.lastSeq

section
variable {abstime : Bool} {chan : AchChannel} {w : WaitEvent} {ws : List WaitEvent}
  {b t : AchHeader}

theorem WaitsOn.cons (h : WaitsOn abstime chan ws (w.others b)) (hsame : chan.seqNum = b.lastSeq)
    (htime : ¬ (w.result = .etimedout ∧ abstime = true)) : WaitsOn abstime chan (w :: ws) b := by
  obtain ⟨c, hws, hc⟩ := h
  exact ⟨c, .cons hsame htime hws, hc⟩

theorem RunsOut.cons (h : RunsOut abstime chan ws (w.others b) t) (hsame : chan.seqNum = b.lastSeq)
    (htime : ¬ (w.result = .etimedout ∧ abstime = true)) : RunsOut abstime chan (w :: ws) b t := by
  obtain ⟨past, w', rest, c, rfl, hws, hc⟩ := h
  exact ⟨w :: past, w', rest, c, rfl, .cons hsame htime hws, hc⟩

theorem Wakes.cons (h : Wakes abstime chan ws (w.others b) t) (hsame : chan.seqNum = b.lastSeq)
    (htime : ¬ (w.result = .etimedout ∧ abstime = true)) : Wakes abstime chan (w :: ws) b t := by
  obtain ⟨past, hpast, hws, hne⟩ := h
  exact ⟨w :: past, List.cons_prefix_cons.mpr ⟨rfl, hpast⟩, .cons hsame htime hws, hne⟩

/-- Without a wait there is something new at once. -/
theorem wakes_now (hne : chan.seqNum ≠ b.lastSeq) : Wakes abstime chan ws b b :=
  ⟨[], List.nil_prefix, .nil b, hne⟩

theorem RunsOut.abstime_eq (h : RunsOut abstime chan ws b t) : abstime = true := by
  obtain ⟨_, _, _, _, _, _, _, _, ha, _⟩ := h
  exact ha

theorem Wakes.seqNum_ne (h : Wakes abstime chan ws b t) : chan.seqNum ≠ t.lastSeq := by
  obtain ⟨_, _, _, hne⟩ := h
  exact hne

end

/-- How the lock of a read ends, whose handle is `h` and which found the state `s`: it waits on, or
its time ran out in a state `t` and it released the mutex, or it has the mutex in a state `t`. -/
inductive LockEnd (dbg : Bool) (h : H) (s : Sys H) (wait abstime : Bool) (ws : List WaitEvent)
    (fs : List (List UInt8)) (o : Outcome ((AchStatus × AchChannel) × AchHeader)) : Prop where
  | blocked (hw : wait = true) (hon : WaitsOn abstime (s.chan h) ws s.shm) (ho : o = .block)
  | timeout {t : Sys H} {gs : List (List UInt8)} (hsteps : Steps dbg (· ≠ h) s gs t)
      (hgs : gs.length ≤ fs.length) (hw : wait = true)
      (hran : RunsOut abstime (s.chan h) ws s.shm t.shm)
      (ho : o = .ok ((.timeout, s.chan h), t.shm))
  | locked {t : Sys H} {gs : List (List UInt8)} (hsteps : Steps dbg (· ≠ h) s gs t)
      (hgs : gs.length ≤ fs.length) (hnow : wait = false → t = s ∧ gs = [])
      (hnew : wait = true → Wakes abstime (s.chan h) ws s.shm t.shm)
      (ho : o = .ok ((.ok, s.chan h), setMutex .held t.shm))

omit [DecidableEq H] in
/-- What a wait of this kind does: it has the mutex again, of the block the others left. -/
theorem out_condWait {s t : Sys H} {w : WaitEvent} (abstime : Bool) (hc : Clean s.shm)
    (hothers : w.others s.shm = t.shm) (hresult : w.result = .zero ∨ w.result = .etimedout) :
    out (pthreadCondWait abstime w) dbg (setMutex .held s.shm) =
      .ok (if w.result = .etimedout ∧ abstime = true then .etimedout else .zero,
        setMutex .held t.shm) := by
  have hfree : setMutex .free (setMutex .held s.shm) = s.shm := setMutex_self s.shm hc.mutex
  simp only [pthreadCondWait, out_bind, out_store, Outcome.bind_ok, out_pure, hfree, hothers]
  rcases hresult with hr | hr <;> cases abstime <;> simp [hr, mutexAfterWait]

/-- `check_lock` after such a wait. -/
theorem out_checkLock (dbg : Bool) {shm : AchHeader} (hc : Clean shm) (r : Bool) :
    out (checkLock (if r = true then .etimedout else .zero) true) dbg (setMutex .held shm) =
      .ok (if r = true then (.timeout, shm) else (.ok, setMutex .held shm)) := by
  have hfree : setMutex .free (setMutex .held shm) = shm := setMutex_self shm hc.mutex
  have hd : (setMutex .held shm).dirty = false := hc.dirty
  cases r with
  | true =>
    have hmutex : (setMutex .held shm).mutex = .held := rfl
    simp [checkLock, releaseIf, pthreadMutexUnlock, hmutex, hfree]
  | false => simp [checkLock, checkDirty, hd]

/-- **The loop of `rdlock`** while the other handles take steps, by induction on the waits. -/
theorem rdlockLoop_waits {h : H} (wait abstime : Bool) {s : Sys H} {ws : List WaitEvent}
    {fs : List (List UInt8)} (hws : Waits dbg h s ws fs) (hc : Clean s.shm)
    (hlive : (s.chan h).cancel = false) :
    LockEnd dbg h s wait abstime ws fs
      (out (rdlockLoop wait abstime ws (s.chan h)) dbg (setMutex .held s.shm)) := by
  have hmutex : ∀ b, (setMutex .held b).mutex = .held := fun _ => rfl
  induction hws with
  | nil s =>
    rw [rdlockLoop, out_bind, out_rdlockCheck dbg (hmutex _), Outcome.bind_ok,
      if_neg (by simp [hlive])]
    split_ifs with hw
    · exact .blocked hw.1 ⟨_, .nil s.shm, hw.2⟩ rfl
    · exact .locked (.refl s) le_rfl (fun _ => ⟨rfl, rfl⟩)
        (fun h1 => wakes_now fun h2 => hw ⟨h1, h2⟩)
        rfl
  | cons hsteps hothers hcancel hresult hws ih =>
    rename_i s t w ws fs gs
    rw [rdlockLoop, out_bind, out_rdlockCheck dbg (hmutex _), Outcome.bind_ok,
      if_neg (by simp [hlive])]
    split_ifs with hw
    · have hsame : { s.chan h with cancel := (s.chan h).cancel || w.cancel } = s.chan h := by
        simp [hcancel]
      have ht : Clean t.shm := hsteps.clean hc
      have hchan : t.chan h = s.chan h := hsteps.chan_other
      simp only [out_bind, out_condWait abstime hc hothers hresult, Outcome.bind_ok, hsame]
      by_cases htime : w.result = .etimedout ∧ abstime = true
      · have hcheck := out_checkLock dbg ht true
        simp only [if_true] at hcheck
        rw [if_pos htime, hcheck, Outcome.bind_ok]
        exact .timeout hsteps (by simp) hw.1
          ⟨[], w, ws, s.shm, rfl, .nil s.shm, hw.2, htime.1, htime.2, hothers.symm⟩ rfl
      · have hcheck := out_checkLock dbg ht false
        simp only [Bool.false_eq_true, if_false] at hcheck
        rw [if_neg htime, hcheck, Outcome.bind_ok]
        simp only [ne_eq, not_true_eq_false, if_false]
        have hend := ih ht (by rw [hchan]; exact hlive)
        rw [hchan] at hend
        cases hend with
        | blocked hw' hon ho =>
          rw [hchan, ← hothers] at hon
          exact .blocked hw' (hon.cons hw.2 htime) ho
        | timeout hsteps' hgs hw' hran ho =>
          rw [hchan] at ho
          rw [hchan, ← hothers] at hran
          exact .timeout (hsteps.trans hsteps') (by simp; omega) hw' (hran.cons hw.2 htime) ho
        | locked hsteps' hgs hnow hnew ho =>
          rw [hchan] at ho
          rw [hchan, ← hothers] at hnew
          refine .locked (hsteps.trans hsteps') (by simp; omega) (fun hf => ?_)
            (fun h1 => (hnew h1).cons hw.2 htime) ho
          rw [hw.1] at hf
          simp at hf
    · exact .locked (.refl s) (by simp) (fun _ => ⟨rfl, rfl⟩)
        (fun h1 => wakes_now fun h2 => hw ⟨h1, h2⟩) rfl

/-- **`rdlock`** on a clean channel while the other handles take steps. -/
theorem rdlock_waits (dbg : Bool) {h : H} (wait abstime : Bool) {s : Sys H} {ws : List WaitEvent}
    {fs : List (List UInt8)} (hws : Waits dbg h s ws fs) (hc : Clean s.shm)
    (hlive : (s.chan h).cancel = false) :
    LockEnd dbg h s wait abstime ws fs (out (rdlock (s.chan h) wait abstime ws) dbg s.shm) := by
  have hrw : out (rdlock (s.chan h) wait abstime ws) dbg s.shm =
      out (rdlockLoop wait abstime ws (s.chan h)) dbg (setMutex .held s.shm) := by
    rw [rdlock, out_bind, out_chanLock dbg hc.mutex hc.dirty]
    simp
  rw [hrw]
  exact rdlockLoop_waits wait abstime hws hc hlive

/-- `rdlock` does not wait for a frame that is there. -/
theorem rdlock_now (dbg : Bool) {shm : AchHeader} {chan : AchChannel} {wait : Bool} (abstime : Bool)
    (ws : List WaitEvent) (hc : Clean shm) (hlive : chan.cancel = false)
    (hnew : wait = true → chan.seqNum ≠ shm.lastSeq) :
    out (rdlock chan wait abstime ws) dbg shm = .ok ((.ok, chan), setMutex .held shm) := by
  have hmutex : (setMutex .held shm).mutex = .held := rfl
  have hcheck : out (rdlockCheck chan wait) dbg (setMutex .held shm) =
      .ok (some .ok, setMutex .held shm) := by
    rw [out_rdlockCheck dbg hmutex, if_neg (by simp [hlive])]
    exact congrArg _ (if_neg fun h => hnew h.1 h.2)
  rw [rdlock, out_bind, out_chanLock dbg hc.mutex hc.dirty, Outcome.bind_ok]
  cases ws with
  | nil => simp [rdlockLoop, hcheck]
  | cons w ws => simp [rdlockLoop, hcheck]

/-- A get that has the mutex of a block `u` is the critical section of `ach_get` there. -/
theorem achGet_of_rdlock {shm u : AchHeader} {chan : AchChannel} (size : ℕ) {abstime : Bool}
    {opts : AchGetOpts} {ws : List WaitEvent} (hc : Clean shm) (hu : Clean u)
    (hm : chan.mapped = true)
    (hr : out (rdlock chan opts.wait abstime ws) dbg shm = .ok ((.ok, chan), setMutex .held u)) :
    out (achGet chan size abstime opts ws) dbg shm =
      (out (getCritical chan size opts) dbg (setMutex .held u)).bind fun p => .ok (p.1, u) := by
  have hg : checkGuards shm = .ok := if_pos hc.guards
  rw [achGet, out_bind, out_load, Outcome.bind_ok, if_neg (by simp [hm]), if_neg (by simp [hg]),
    out_bind, hr, Outcome.bind_ok]
  simp only [ne_eq, not_true_eq_false, if_false, out_bind]
  cases hcrit : out (getCritical chan size opts) dbg (setMutex .held u) with
  | ok p =>
    obtain ⟨hstate, -⟩ := (getCritical_holds (P := (· = setMutex .held u))
      (C := fun _ => True) chan size opts dbg _ rfl).2 p.1 p.2 hcrit
    rw [Outcome.bind_ok, Outcome.bind_ok, hstate, out_unrdlock_held dbg hu]
    simp
  | abort => rfl
  | fault => rfl
  | hang => rfl
  | block => rfl

/-- How a get of handle `h` ends that found the state `s`: it waits on, or its time ran out, or it
is the critical section of `ach_get` in a state `t`. -/
inductive GetEnd (dbg : Bool) (h : H) (s : Sys H) (size : ℕ) (abstime : Bool) (opts : AchGetOpts)
    (ws : List WaitEvent) (fs : List (List UInt8))
    (o : Outcome ((GetResult × AchChannel) × AchHeader)) : Prop where
  | blocked (hw : opts.wait = true) (hon : WaitsOn abstime (s.chan h) ws s.shm) (ho : o = .block)
  | timeout {t : Sys H} {gs : List (List UInt8)} (hsteps : Steps dbg (· ≠ h) s gs t)
      (hgs : gs.length ≤ fs.length) (hw : opts.wait = true)
      (hran : RunsOut abstime (s.chan h) ws s.shm t.shm)
      (ho : o = .ok ((.bare .timeout, s.chan h), t.shm))
  | taken {t : Sys H} {gs : List (List UInt8)} (hsteps : Steps dbg (· ≠ h) s gs t)
      (hgs : gs.length ≤ fs.length) (hnow : opts.wait = false → t = s ∧ gs = [])
      (hnew : opts.wait = true → Wakes abstime (s.chan h) ws s.shm t.shm)
      (ho : o = (out (getCritical (s.chan h) size opts) dbg (setMutex .held t.shm)).bind
        fun p => .ok (p.1, t.shm))

/-- **`ach_get`** on a clean channel while the other handles take steps. -/
theorem achGet_waits {h : H} (size : ℕ) (abstime : Bool) (opts : AchGetOpts) {s : Sys H}
    {ws : List WaitEvent} {fs : List (List UInt8)} (hws : Waits dbg h s ws fs) (hc : Clean s.shm)
    (hm : (s.chan h).mapped = true) (hlive : (s.chan h).cancel = false) :
    GetEnd dbg h s size abstime opts ws fs
      (out (achGet (s.chan h) size abstime opts ws) dbg s.shm) := by
  have hg : checkGuards s.shm = .ok := if_pos hc.guards
  cases rdlock_waits dbg opts.wait abstime hws hc hlive with
  | blocked hw hon ho =>
    refine .blocked hw hon ?_
    simp [achGet, hm, hg, ho, Outcome.bind]
  | timeout hsteps hgs hw hran ho =>
    refine .timeout hsteps hgs hw hran ?_
    simp [achGet, hm, hg, ho]
  | locked hsteps hgs hnow hnew ho =>
    exact .taken hsteps hgs hnow hnew (achGet_of_rdlock size hc (hsteps.clean hc) hm ho)

end Ach.Channel.Reach
