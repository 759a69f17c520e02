import Ach.Channel.Frame
import Ach.Channel.GetSpec
import Ach.Channel.History
import Mathlib.Logic.Function.Basic

/-! # Runs of puts, gets and flushes

Any number of handles share one channel; a run is a sequence of calls, each by one of them and each
one atomic step under the mutex. A get that has to wait and is not woken blocks, so it is a step
only where it returns.

Reading leaves no trace in the channel, and writing does not look at any cursor. So deleting the
reads of some handles from a run changes nothing for anybody else (`run_without_readers`), and a put
of a length the channel can hold always succeeds. -/

namespace Ach.Channel.Runs

open Ach.Lib.Run Ach.Lib.Word
open Ach.Channel.Types Ach.Channel.Lock Ach.Channel.Put Ach.Channel.Get Ach.Channel.Create
open Ach.Channel.Invariant Ach.Channel.PutSpec Ach.Channel.Frame Ach.Channel.GetSpec
open Ach.Channel.History

/-- A call, with what its caller gives it and with the ends of its waits. -/
inductive Call where
  | put (buf : Option (ℕ → UInt8)) (len : ℕ)
  | get (size : ℕ) (abstime : Bool) (opts : AchGetOpts) (waits : List WaitEnd)
  | flush

/-- What a call did: a put leaves a status and a channel, a read a result and a cursor. -/
inductive Reply where
  | put (r : AchStatus) (shm : AchHeader)
  | get (res : GetResult) (chan : AchChannel)
  | flush (r : AchStatus) (chan : AchChannel)
  deriving DecidableEq

/-- A call of a run. -/
structure Event (H : Type) where
  handle : H
  call : Call
  reply : Reply

/-- A channel and the handles that are open on it. -/
structure Sys (H : Type) where
  shm : AchHeader
  chan : H → AchChannel

variable {H : Type} [DecidableEq H]

/-- One call. -/
def Sys.call (dbg : Bool) (s : Sys H) (h : H) : Call → Outcome (Reply × Sys H)
  | .put buf len => (out (achPut (s.chan h) buf len) dbg s.shm).bind fun p =>
    .ok (.put p.1 p.2, { s with shm := p.2 })
  | .get size abstime opts waits =>
    (out (achGet (s.chan h) size abstime opts (waits.map WaitEnd.event)) dbg s.shm).bind fun p =>
      .ok (.get p.1.1 p.1.2, ⟨p.2, Function.update s.chan h p.1.2⟩)
  | .flush => (out (achFlush (s.chan h)) dbg s.shm).bind fun p =>
    .ok (.flush p.1.1 p.1.2, ⟨p.2, Function.update s.chan h p.1.2⟩)

/-- The calls one after the other. -/
def run (dbg : Bool) : List (H × Call) → Sys H → Outcome (List (Event H) × Sys H)
  | [], s => .ok ([], s)
  | (h, c) :: cs, s => (s.call dbg h c).bind fun p =>
    (run dbg cs p.2).bind fun q => .ok (⟨h, c, p.1⟩ :: q.1, q.2)

/-! ### One call -/

section
variable {shm : AchHeader} {dbg : Bool}

/-- `ach_put` leaves a clean channel clean. -/
theorem achPut_clean {chan : AchChannel} {buf : Option (ℕ → UInt8)} {len : ℕ} {r : AchStatus}
    {shm' : AchHeader} (hc : Clean shm) (h : out (achPut chan buf len) dbg shm = .ok (r, shm')) :
    Clean shm' := by
  have hg : checkGuards shm = .ok := if_pos hc.guards
  cases buf with
  | none =>
    obtain ⟨-, rfl⟩ : AchStatus.einval = r ∧ shm = shm' := by simpa [achPut] using h
    exact hc
  | some buf =>
    unfold achPut at h
    by_cases h0 : len = 0 ∨ chan.mapped = false
    · obtain ⟨-, rfl⟩ : AchStatus.einval = r ∧ shm = shm' := by simpa [h0] using h
      exact hc
    by_cases hbig : shm.dataSize < len
    · obtain ⟨-, rfl⟩ : AchStatus.overflow = r ∧ shm = shm' := by simpa [h0, hg, hbig] using h
      exact hc
    simp only [h0, if_false, out_bind, out_load, Outcome.bind_ok, hg, ne_eq, not_true_eq_false,
      out_ite, hbig, gt_iff_lt, out_wrlock dbg hc.mutex hc.dirty] at h
    obtain ⟨⟨⟨⟩, shm₁⟩, hcrit, h⟩ := Outcome.bind_eq_ok.mp h
    have hfix : fixedPart shm₁ = fixedPart { shm with mutex := .held, dirty := true } :=
      (putCritical_keeps (stable_fixed _) buf len dbg _ rfl).2 _ _ hcrit
    have hm : shm₁.mutex = .held := mutex_of_fixedPart hfix
    have hd : shm₁.dirty = true := dirty_of_fixedPart hfix
    rw [out_unwrlock dbg hm hd] at h
    obtain ⟨-, rfl⟩ : AchStatus.ok = r ∧ { shm₁ with mutex := .free, dirty := false } = shm' := by
      simpa using h
    have hguards : GuardsOk shm₁ := (guardsOk_of_fixedPart hfix).mpr hc.guards
    exact ⟨rfl, rfl, hguards⟩

/-- `ach_put` does not look at the cursor. -/
theorem achPut_congr {chan chan' : AchChannel} (h : chan'.mapped = chan.mapped)
    (buf : Option (ℕ → UInt8)) (len : ℕ) : achPut chan' buf len = achPut chan buf len := by
  unfold achPut
  rw [h]

/-- **`ach_get`** leaves a clean channel as it was. -/
theorem achGet_clean {chan chan' : AchChannel} {size : ℕ} {abstime : Bool} {opts : AchGetOpts}
    {ws : List WaitEnd} {res : GetResult} {shm' : AchHeader} (hc : Clean shm)
    (h : out (achGet chan size abstime opts (ws.map WaitEnd.event)) dbg shm =
      .ok ((res, chan'), shm')) : shm' = shm ∧ SameHandle chan chan' := by
  have hg : checkGuards shm = .ok := if_pos hc.guards
  unfold achGet at h
  cases hmap : chan.mapped
  · simp [hmap] at h
  simp only [out_bind, out_load, Outcome.bind_ok, hmap, hg, ne_eq, not_true_eq_false, if_false,
    Bool.true_eq_false] at h
  rcases rdlock_quiet dbg opts.wait abstime chan hc ws with ⟨hb, -⟩ | ⟨r, hr, hr'⟩ | ⟨hr, -⟩
  · rw [hb] at h; simp [Outcome.bind] at h
  · have hne : r ≠ .ok := by rcases hr' with rfl | ⟨rfl, -⟩ <;> simp
    rw [hr, Outcome.bind_ok] at h
    simp only [hne, not_false_eq_true, if_true, out_pure, Outcome.ok.injEq, Prod.mk.injEq] at h
    obtain ⟨⟨-, rfl⟩, rfl⟩ := h
    exact ⟨rfl, rfl, rfl, rfl⟩
  · rw [hr, Outcome.bind_ok] at h
    simp only [not_true_eq_false, if_false, out_bind] at h
    obtain ⟨⟨⟨res₁, chan₁⟩, s₁⟩, hcrit, h⟩ := Outcome.bind_eq_ok.mp h
    obtain ⟨rfl, hsame⟩ := (getCritical_holds (P := (· = setMutex .held shm)) (C := fun _ => True)
      chan size opts dbg _ rfl).2 _ _ hcrit
    rw [out_unrdlock_held dbg hc] at h
    simp only [Outcome.bind_ok, not_true_eq_false, if_false, out_pure, Outcome.ok.injEq,
      Prod.mk.injEq] at h
    obtain ⟨⟨-, rfl⟩, rfl⟩ := h
    exact ⟨rfl, hsame⟩

/-- **`ach_flush`** leaves a clean channel as it was. -/
theorem achFlush_clean {chan chan' : AchChannel} {r : AchStatus} {shm' : AchHeader} (hc : Clean shm)
    (h : out (achFlush chan) dbg shm = .ok ((r, chan'), shm')) :
    shm' = shm ∧ SameHandle chan chan' := by
  unfold achFlush at h
  cases hmap : chan.mapped
  · simp [hmap] at h
  simp only [hmap, Bool.true_eq_false, if_false, out_bind] at h
  rcases rdlock_quiet dbg false false chan hc [] with ⟨-, hb⟩ | ⟨r', hr, hr' | ⟨-, hr'⟩⟩ | ⟨hr, -⟩
  · simp at hb
  · rw [List.map_nil] at hr
    rw [hr, hr', Outcome.bind_ok] at h
    obtain ⟨⟨-, rfl⟩, rfl⟩ : (AchStatus.canceled = r ∧ chan = chan') ∧ shm = shm' := by
      simpa using h
    exact ⟨rfl, rfl, rfl, rfl⟩
  · simp at hr'
  · rw [List.map_nil] at hr
    rw [hr, Outcome.bind_ok] at h
    simp only [ne_eq, not_true_eq_false, if_false, out_bind] at h
    obtain ⟨⟨chan₁, s₁⟩, hcrit, h⟩ := Outcome.bind_eq_ok.mp h
    obtain ⟨rfl, hsame⟩ := (flushCritical_holds (P := (· = setMutex .held shm))
      (C := fun _ => True) chan dbg _ rfl).2 _ _ hcrit
    rw [out_unrdlock_held dbg hc] at h
    obtain ⟨⟨-, rfl⟩, rfl⟩ : (AchStatus.ok = r ∧ chan₁ = chan') ∧ shm = shm' := by simpa using h
    exact ⟨rfl, hsame⟩

end

/-! ### Deleting reads -/

/-- The calls that stay when the gets and flushes of the handles in `D` are deleted. -/
def Stays (D : H → Bool) (h : H) : Call → Bool
  | .put _ _ => true
  | _ => !D h

/-- Two systems that differ in the cursors of the handles in `D` only. -/
structure Agree (D : H → Bool) (s t : Sys H) : Prop where
  shm : t.shm = s.shm
  chan : ∀ h, D h = false → t.chan h = s.chan h
  mapped : ∀ h, (t.chan h).mapped = (s.chan h).mapped

/-- A read by a handle changes nothing but the cursor of that handle. -/
theorem call_read {dbg : Bool} {s s' : Sys H} {h : H} {c : Call} {r : Reply} (hc : Clean s.shm)
    (hput : ∀ buf len, c ≠ .put buf len) (hcall : s.call dbg h c = .ok (r, s')) :
    s'.shm = s.shm ∧ (∀ h', h' ≠ h → s'.chan h' = s.chan h') ∧
      SameHandle (s.chan h) (s'.chan h) := by
  cases c with
  | put buf len => exact absurd rfl (hput buf len)
  | get size abstime opts waits =>
    obtain ⟨p, hp, hr⟩ := Outcome.bind_eq_ok.mp hcall
    obtain ⟨-, rfl⟩ : Reply.get p.1.1 p.1.2 = r ∧ ⟨p.2, Function.update s.chan h p.1.2⟩ = s' := by
      simpa using hr
    obtain ⟨hshm, hsame⟩ := achGet_clean hc hp
    exact ⟨hshm, fun h' hne => Function.update_of_ne hne _ _, by simpa using hsame⟩
  | flush =>
    obtain ⟨p, hp, hr⟩ := Outcome.bind_eq_ok.mp hcall
    obtain ⟨-, rfl⟩ : Reply.flush p.1.1 p.1.2 = r ∧ ⟨p.2, Function.update s.chan h p.1.2⟩ = s' := by
      simpa using hr
    obtain ⟨hshm, hsame⟩ := achFlush_clean hc hp
    exact ⟨hshm, fun h' hne => Function.update_of_ne hne _ _, by simpa using hsame⟩

theorem call_clean {dbg : Bool} {s s' : Sys H} {h : H} {c : Call} {r : Reply} (hc : Clean s.shm)
    (hcall : s.call dbg h c = .ok (r, s')) : Clean s'.shm := by
  cases c with
  | put buf len =>
    obtain ⟨p, hp, hr⟩ := Outcome.bind_eq_ok.mp hcall
    obtain ⟨-, rfl⟩ : Reply.put p.1 p.2 = r ∧ { s with shm := p.2 } = s' := by simpa using hr
    exact achPut_clean hc hp
  | get size abstime opts waits => rw [(call_read hc (by simp) hcall).1]; exact hc
  | flush => rw [(call_read hc (by simp) hcall).1]; exact hc

theorem Agree.update {D : H → Bool} {s t : Sys H} (ha : Agree D s t) (shm : AchHeader) (h : H)
    (chan : AchChannel) :
    Agree D ⟨shm, Function.update s.chan h chan⟩ ⟨shm, Function.update t.chan h chan⟩ := by
  refine ⟨rfl, fun h' hD => ?_, fun h' => ?_⟩ <;> by_cases hh : h' = h
  · subst hh; simp
  · simpa [hh] using ha.chan h' hD
  · subst hh; simp
  · simpa [hh] using ha.mapped h'

/-- The step lemma, for a call that stays: it does the same in both systems. -/
theorem call_agree {dbg : Bool} {D : H → Bool} {s t s' : Sys H} {h : H} {c : Call} {r : Reply}
    (ha : Agree D s t) (hstay : Stays D h c = true)
    (hcall : s.call dbg h c = .ok (r, s')) :
    ∃ t', t.call dbg h c = .ok (r, t') ∧ Agree D s' t' := by
  cases c with
  | put buf len =>
    obtain ⟨p, hp, hr⟩ := Outcome.bind_eq_ok.mp hcall
    obtain ⟨rfl, rfl⟩ : Reply.put p.1 p.2 = r ∧ { s with shm := p.2 } = s' := by simpa using hr
    refine ⟨{ t with shm := p.2 }, ?_, rfl, ha.chan, ha.mapped⟩
    rw [Sys.call, ha.shm, achPut_congr (ha.mapped h), hp]
    rfl
  | get size abstime opts waits =>
    have hD : D h = false := by simpa [Stays] using hstay
    obtain ⟨p, hp, hr⟩ := Outcome.bind_eq_ok.mp hcall
    obtain ⟨rfl, rfl⟩ : Reply.get p.1.1 p.1.2 = r ∧ ⟨p.2, Function.update s.chan h p.1.2⟩ = s' := by
      simpa using hr
    refine ⟨⟨p.2, Function.update t.chan h p.1.2⟩, ?_, ha.update p.2 h p.1.2⟩
    rw [Sys.call, ha.shm, ha.chan h hD, hp]
    rfl
  | flush =>
    have hD : D h = false := by simpa [Stays] using hstay
    obtain ⟨p, hp, hr⟩ := Outcome.bind_eq_ok.mp hcall
    obtain ⟨rfl, rfl⟩ : Reply.flush p.1.1 p.1.2 = r ∧
        ⟨p.2, Function.update s.chan h p.1.2⟩ = s' := by
      simpa using hr
    refine ⟨⟨p.2, Function.update t.chan h p.1.2⟩, ?_, ha.update p.2 h p.1.2⟩
    rw [Sys.call, ha.shm, ha.chan h hD, hp]
    rfl

/-- The step lemma, for a call that is deleted: the systems still agree. -/
theorem call_deleted {dbg : Bool} {D : H → Bool} {s t s' : Sys H} {h : H} {c : Call} {r : Reply}
    (hc : Clean s.shm) (ha : Agree D s t) (hgone : Stays D h c = false)
    (hcall : s.call dbg h c = .ok (r, s')) : Agree D s' t := by
  have hput : ∀ buf len, c ≠ .put buf len := fun buf len he => by simp [he, Stays] at hgone
  have hD : D h = true := by
    cases c with
    | put buf len => exact absurd rfl (hput buf len)
    | get size abstime opts waits => simpa [Stays] using hgone
    | flush => simpa [Stays] using hgone
  obtain ⟨hshm, hchan, hsame⟩ := call_read hc hput hcall
  refine ⟨by rw [hshm, ha.shm], fun h' hD' => ?_, fun h' => ?_⟩
  · have hne : h' ≠ h := fun he => by rw [he, hD] at hD'; simp at hD'
    rw [hchan h' hne, ha.chan h' hD']
  · by_cases hh : h' = h
    · rw [hh, ha.mapped h, hsame.1]
    · rw [hchan h' hh, ha.mapped h']

/-- **The run lemma.** -/
theorem run_agree (dbg : Bool) (D : H → Bool) : ∀ (calls : List (H × Call)) (s t s' : Sys H)
    (evs : List (Event H)), Clean s.shm → Agree D s t → run dbg calls s = .ok (evs, s') →
      ∃ t', run dbg (calls.filter fun c => Stays D c.1 c.2) t =
        .ok (evs.filter fun e => Stays D e.handle e.call, t') ∧ Agree D s' t' := by
  intro cs
  induction cs with
  | nil =>
    intro s t s' evs _ ha hrun
    obtain ⟨rfl, rfl⟩ : [] = evs ∧ s = s' := by simpa [run] using hrun
    exact ⟨t, rfl, ha⟩
  | cons p cs ih =>
    intro s t s' evs hc ha hrun
    obtain ⟨h, c⟩ := p
    obtain ⟨⟨r, s₁⟩, hcall, hrun⟩ := Outcome.bind_eq_ok.mp hrun
    obtain ⟨⟨evs₁, s₂⟩, hrest, hevs⟩ := Outcome.bind_eq_ok.mp hrun
    obtain ⟨rfl, rfl⟩ : ⟨h, c, r⟩ :: evs₁ = evs ∧ s₂ = s' := by simpa using hevs
    have hc₁ := call_clean hc hcall
    cases hstay : Stays D h c with
    | true =>
      obtain ⟨t₁, hcall', ha₁⟩ := call_agree ha hstay hcall
      obtain ⟨t', hrun', ha'⟩ := ih s₁ t₁ s₂ evs₁ hc₁ ha₁ hrest
      refine ⟨t', ?_, ha'⟩
      simp [hstay, run, hcall', hrun']
    | false =>
      obtain ⟨t', hrun', ha'⟩ := ih s₁ t s₂ evs₁ hc₁
        (call_deleted hc ha hstay hcall)
        hrest
      refine ⟨t', ?_, ha'⟩
      simp [hstay, hrun']

/-! ### What the channel represents after a run -/

/-- The frame a call added to the channel. -/
def Event.frames (e : Event H) : List (List UInt8) :=
  match e.call, e.reply with
  | .put (some buf) len, .put .ok _ => [frameOf buf len]
  | _, _ => []

/-- The frames accepted in a run, in lock order. -/
def puts (evs : List (Event H)) : List (List UInt8) := evs.flatMap Event.frames

/-- The call is a put. -/
def Call.isPut : Call → Bool
  | .put _ _ => true
  | _ => false

/-- The number of puts among the calls. -/
def putCount (calls : List (H × Call)) : ℕ := calls.countP fun c => c.2.isPut

omit [DecidableEq H] in
theorem putCount_cons (h : H) (c : Call) (calls : List (H × Call)) :
    putCount ((h, c) :: calls) = putCount calls + if c.isPut then 1 else 0 := by
  simp [putCount, List.countP_cons]

omit [DecidableEq H] in
theorem length_frames (h : H) (c : Call) (r : Reply) :
    (Event.frames ⟨h, c, r⟩).length ≤ if c.isPut then 1 else 0 := by
  unfold Event.frames
  split
  · rename_i hc _
    simp only at hc
    simp [hc, Call.isPut]
  · exact Nat.zero_le _

/-- The channel is clean and represents `hist`, and every handle is open. -/
structure Good (cnt size : ℕ) (hist : List (List UInt8)) (s : Sys H) : Prop where
  inv : ∃ kept, Inv hist kept s.shm
  clean : Clean s.shm
  indexCnt : s.shm.indexCnt = cnt
  dataSize : s.shm.dataSize = size
  mapped : ∀ h, (s.chan h).mapped = true

section
variable {cnt size : ℕ} {hist : List (List UInt8)} {s s' : Sys H}

/-- A put that gives a buffer and a length the channel can hold succeeds. -/
theorem put_good (dbg : Bool) (hs : Good cnt size hist s) (hcnt : 0 < cnt)
    (hseq : dbg = true → hist.length + 1 < 2 ^ 64) (h : H) (buf : ℕ → UInt8) {len : ℕ}
    (hpos : 1 ≤ len) (hlen : len ≤ size) :
    ∃ s', s.call dbg h (.put (some buf) len) = .ok (.put .ok s'.shm, s') ∧
      Good cnt size (hist ++ [frameOf buf len]) s' := by
  obtain ⟨kept, hinv⟩ := hs.inv
  obtain ⟨kept', shm', hout, hinv', hfix⟩ := achPut_spec dbg buf hinv hs.clean (hs.mapped h)
    (by rw [hs.indexCnt]; exact hcnt) hpos (by rw [hs.dataSize]; exact hlen) hseq
  refine ⟨{ s with shm := shm' }, ?_, ⟨kept', hinv'⟩, clean_of_fixedPart hfix hs.clean, ?_, ?_,
    hs.mapped⟩
  · rw [Sys.call, hout]; rfl
  · exact (indexCnt_of_fixedPart hfix).trans hs.indexCnt
  · exact (dataSize_of_fixedPart hfix).trans hs.dataSize

/-- Any other put leaves everything as it is. -/
theorem put_rejected (dbg : Bool) (hs : Good cnt size hist s) (h : H) {buf : Option (ℕ → UInt8)}
    {len : ℕ} (hrej : ¬ Accepts size ⟨s.chan h, buf, len⟩) :
    ∃ r, s.call dbg h (.put buf len) = .ok (.put r s.shm, s) ∧ (r = .einval ∨ r = .overflow) := by
  rw [← hs.dataSize] at hrej
  obtain ⟨r, hout, hr⟩ := achPut_rejected dbg hs.clean.guards hrej
  exact ⟨r, by rw [Sys.call, hout]; rfl, hr⟩

/-- **The step lemma.** -/
theorem call_good {dbg : Bool} {h : H} {c : Call} {r : Reply} (hs : Good cnt size hist s)
    (hcnt : 0 < cnt) (hseq : dbg = true → hist.length + (if c.isPut then 1 else 0) < 2 ^ 64)
    (hcall : s.call dbg h c = .ok (r, s')) :
    Good cnt size (hist ++ Event.frames ⟨h, c, r⟩) s' := by
  by_cases hput : ∃ buf len, c = .put buf len
  · obtain ⟨buf, len, rfl⟩ := hput
    by_cases ha : Accepts size ⟨s.chan h, buf, len⟩
    · obtain ⟨hbuf, hpos, hlen⟩ := ha
      obtain ⟨buf, rfl⟩ := Option.isSome_iff_exists.mp hbuf
      obtain ⟨s₁, hcall', hgood⟩ := put_good dbg hs hcnt (by simpa [Call.isPut] using hseq) h buf
        hpos hlen
      rw [hcall', Outcome.ok.injEq, Prod.mk.injEq] at hcall
      obtain ⟨rfl, rfl⟩ := hcall
      exact hgood
    · obtain ⟨r', hcall', hr⟩ := put_rejected dbg hs h ha
      rw [hcall', Outcome.ok.injEq, Prod.mk.injEq] at hcall
      obtain ⟨rfl, rfl⟩ := hcall
      have hnone : Event.frames ⟨h, .put buf len, .put r' s.shm⟩ = [] := by
        rcases hr with rfl | rfl <;> cases buf <;> rfl
      rw [hnone, List.append_nil]
      exact hs
  · have hput' : ∀ buf len, c ≠ .put buf len := fun buf len he => hput ⟨buf, len, he⟩
    obtain ⟨hshm, hchan, hsame⟩ := call_read hs.clean hput' hcall
    have hnone : Event.frames ⟨h, c, r⟩ = [] := by
      cases c with
      | put buf len => exact absurd rfl (hput' buf len)
      | get size abstime opts waits => rfl
      | flush => rfl
    rw [hnone, List.append_nil]
    refine ⟨by rw [hshm]; exact hs.inv, by rw [hshm]; exact hs.clean, by rw [hshm, hs.indexCnt],
      by rw [hshm, hs.dataSize], fun h' => ?_⟩
    by_cases hh : h' = h
    · rw [hh, hsame.1, hs.mapped h]
    · rw [hchan h' hh, hs.mapped h']

end

theorem run_good {dbg : Bool} {cnt size : ℕ} (hcnt : 0 < cnt) :
    ∀ (calls : List (H × Call)) (hist : List (List UInt8)) (s s' : Sys H) (evs : List (Event H)),
      Good cnt size hist s → (dbg = true → hist.length + putCount calls < 2 ^ 64) →
      run dbg calls s = .ok (evs, s') → Good cnt size (hist ++ puts evs) s' ∧
        (puts evs).length ≤ putCount calls := by
  intro cs
  induction cs with
  | nil =>
    intro hist s s' evs hs _ hrun
    obtain ⟨rfl, rfl⟩ : [] = evs ∧ s = s' := by simpa [run] using hrun
    exact ⟨by simpa [puts] using hs, Nat.zero_le _⟩
  | cons p cs ih =>
    intro hist s s' evs hs hseq hrun
    obtain ⟨h, c⟩ := p
    obtain ⟨⟨r, s₁⟩, hcall, hrun⟩ := Outcome.bind_eq_ok.mp hrun
    obtain ⟨⟨evs₁, s₂⟩, hrest, hevs⟩ := Outcome.bind_eq_ok.mp hrun
    obtain ⟨rfl, rfl⟩ : ⟨h, c, r⟩ :: evs₁ = evs ∧ s₂ = s' := by simpa using hevs
    have hcount := putCount_cons h c cs
    have hframes := length_frames h c r
    have hs₁ := call_good hs hcnt (fun hd => by have := hseq hd; omega) hcall
    obtain ⟨hgood, hlen⟩ := ih _ s₁ s₂ evs₁ hs₁ (fun hd => by
      have := hseq hd
      rw [List.length_append]
      omega) hrest
    have hputs : puts (⟨h, c, r⟩ :: evs₁) = Event.frames ⟨h, c, r⟩ ++ puts evs₁ := rfl
    rw [hputs, ← List.append_assoc]
    refine ⟨hgood, ?_⟩
    rw [List.length_append]
    omega

/-- **Subscribers do not interfere.** Take any run on a clean channel. Without the gets and flushes
of the handles in `D`, the other calls do exactly what they did: each put has the same status and
leaves the same channel, each get and flush has the same result and leaves the same cursor. And
wherever the readers are after the run, a put of a length the channel can hold succeeds. -/
theorem run_without_readers (dbg : Bool) (D : H → Bool) {calls : List (H × Call)} {s s' : Sys H}
    {evs : List (Event H)} (hc : Clean s.shm) (hrun : run dbg calls s = .ok (evs, s')) :
    (∃ t', run dbg (calls.filter fun c => Stays D c.1 c.2) s =
        .ok (evs.filter fun e => Stays D e.handle e.call, t') ∧ t'.shm = s'.shm ∧
      ∀ h, D h = false → t'.chan h = s'.chan h) ∧
    ∀ hist kept, Inv hist kept s.shm → 0 < s.shm.indexCnt → (∀ h, (s.chan h).mapped = true) →
      (dbg = true → hist.length + putCount calls + 1 < 2 ^ 64) →
      ∀ (h : H) (buf : ℕ → UInt8) (len : ℕ), 1 ≤ len → len ≤ s.shm.dataSize →
        ∃ s'', s'.call dbg h (.put (some buf) len) = .ok (.put .ok s''.shm, s'') := by
  constructor
  · obtain ⟨t', hrun', ha⟩ := run_agree dbg D calls s s s' evs hc
      ⟨rfl, fun _ _ => rfl, fun _ => rfl⟩ hrun
    exact ⟨t', hrun', ha.shm, ha.chan⟩
  · intro hist kept hinv hcnt hmap hseq h buf len hpos hlen
    have hs : Good s.shm.indexCnt s.shm.dataSize hist s := ⟨⟨kept, hinv⟩, hc, rfl, rfl, hmap⟩
    obtain ⟨hgood, hcount⟩ := run_good hcnt calls hist s s' evs hs
      (fun hd => by have := hseq hd; omega) hrun
    obtain ⟨s'', hcall, -⟩ := put_good dbg hgood hcnt (fun hd => by
      have := hseq hd
      rw [List.length_append]
      omega) h buf hpos hlen
    exact ⟨s'', hcall⟩

/-- Two handles on a channel of 2 frames of 3 bytes. -/
def sampleSys : Sys Bool := ⟨created 2 3, fun _ => openedChan (created 2 3)⟩

/-- One handle puts frames of 2 and 4 bytes and reads the last one twice; the other reads the first
one and then flushes. -/
def sampleCalls : List (Bool × Call) :=
  [(false, .put (some fun j => UInt8.ofNat (10 + j)) 2),
    (true, .get 8 false ⟨true, false, false⟩ []),
    (false, .put (some fun j => UInt8.ofNat (20 + j)) 4),
    (false, .get 8 false ⟨false, true, false⟩ []),
    (true, .flush),
    (false, .get 8 false ⟨false, false, true⟩ [])]

theorem run_without_readers_sample :
    ∃ evs s', run true sampleCalls sampleSys = .ok (evs, s') ∧
      (∃ t', run true (sampleCalls.filter fun c => Stays id c.1 c.2) sampleSys =
          .ok (evs.filter fun e => Stays id e.handle e.call, t') ∧ t'.shm = s'.shm ∧
        ∀ h, id h = false → t'.chan h = s'.chan h) ∧
      ∃ s'', s'.call true true (.put (some fun _ => 7) 6) = .ok (.put .ok s''.shm, s'') := by
  have hok : (run true sampleCalls sampleSys).isOk = true := by decide +kernel
  obtain ⟨⟨evs, s'⟩, hrun⟩ := Outcome.exists_of_isOk hok
  have h := run_without_readers true id (clean_created 2 3) hrun
  exact ⟨evs, s', hrun, h.1, h.2 [] 0 (inv_created (by decide) (by decide)) (by decide)
    (fun _ => rfl) (by decide) true _ 6 (by decide) (by decide)⟩

end Ach.Channel.Runs
