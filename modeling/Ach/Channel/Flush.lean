import Ach.Channel.Answer
import Ach.Channel.Bounds
import Ach.Channel.Delivery

/-! # Flushing

`ach_flush` computes a cursor from the head of the index array; `ach_get` with `ACH_O_LAST` and
`ACH_O_COPY` computes one from the slot of the newest frame. In every reachable state the two are
the same, so that flushing is reading the newest frame and throwing it away (`flush_discards`). What
a handle gets after a flush is newer than the flush, but for the newest frame itself, copied while
nothing new has been put; and the frames it is told it missed are newer too. -/

namespace Ach.Channel.Flush

open Ach.Lib.Run
open Ach.Channel.Types Ach.Channel.Lock Ach.Channel.Put Ach.Channel.Get Ach.Channel.Create
open Ach.Channel.Invariant Ach.Channel.PutSpec Ach.Channel.GetSpec Ach.Channel.History
open Ach.Channel.Runs Ach.Channel.Reach Ach.Channel.Delivery Ach.Channel.Answer Ach.Channel.Bounds

/-- The get delivered a frame. -/
def Success (res : GetResult) : Prop := res.status = .ok ∨ res.status = .missedFrame

/-- **What a get gives a handle that flushed at frame `n`.** The frame is newer than the flush, or
it is the newest one, copied before anything new has been put; and if frames were missed, one of
them is newer than the flush and than all that the handle has got since. -/
structure Fresh (n : ℕ) (new : List (List UInt8)) (got : List ℕ) (opts : AchGetOpts)
    (res : GetResult) (seqNum : ℕ) : Prop where
  newer : n < seqNum ∨ seqNum = n ∧ opts.copy = true ∧ new = []
  missed : res.status = .missedFrame → ∃ m, n < m ∧ m < seqNum ∧ ∀ q ∈ got, q < m

/-! ### One get -/

theorem chosen_bounds {last s : ℕ} (old : ℕ) (opts : AchGetOpts) (h : s ≤ last) :
    s ≤ chosen last old s opts ∧ (s < last → s < chosen last old s opts) := by
  unfold chosen
  split_ifs with hc
  · omega
  · omega

/-- An answer delivers the frame chosen and moves the handle there, or leaves the handle alone. -/
theorem getAnswer_moves (hist : List (List UInt8)) (old cnt size : ℕ) (opts : AchGetOpts)
    (chan : AchChannel) :
    (¬ Success (getAnswer hist old cnt size opts chan).1 ∧
      (getAnswer hist old cnt size opts chan).2 = chan) ∨
    (¬ NoFrame opts hist.length chan.seqNum ∧
      (getAnswer hist old cnt size opts chan).2 =
        movedTo cnt chan (chosen hist.length old chan.seqNum opts) ∧
      ((getAnswer hist old cnt size opts chan).1.status = .missedFrame →
        chan.seqNum + 1 < chosen hist.length old chan.seqNum opts)) := by
  by_cases hno : NoFrame opts hist.length chan.seqNum
  · rw [getAnswer_noFrame _ _ _ _ _ _ hno]
    exact Or.inl ⟨by simp [Success, GetResult.bare], rfl⟩
  rcases Nat.lt_or_ge size (chosenFrame hist old opts chan).length with hbig | hfit
  · rw [getAnswer_overflow _ _ _ _ _ _ hno hbig]
    exact Or.inl ⟨by simp [Success], rfl⟩
  · rw [getAnswer_delivers _ _ _ _ _ _ hno hfit]
    refine Or.inr ⟨hno, rfl, fun hst => ?_⟩
    by_contra hmiss
    rw [if_neg hmiss] at hst
    simp at hst

/-- **The step lemma.** A handle at or past the flush moves forward, if at all, and gets what it may
get. -/
theorem getAnswer_fresh {hist₀ new : List (List UInt8)} {chan : AchChannel} {got : List ℕ}
    (old cnt size : ℕ) (opts : AchGetOpts) (hpast : hist₀.length ≤ chan.seqNum)
    (hle : chan.seqNum ≤ (hist₀ ++ new).length) (hgot : ∀ q ∈ got, q ≤ chan.seqNum) :
    (getAnswer (hist₀ ++ new) old cnt size opts chan).2.mapped = chan.mapped ∧
    chan.seqNum ≤ (getAnswer (hist₀ ++ new) old cnt size opts chan).2.seqNum ∧
    (Success (getAnswer (hist₀ ++ new) old cnt size opts chan).1 →
      Fresh hist₀.length new got opts (getAnswer (hist₀ ++ new) old cnt size opts chan).1
        (getAnswer (hist₀ ++ new) old cnt size opts chan).2.seqNum) := by
  rcases getAnswer_moves (hist₀ ++ new) old cnt size opts chan with
    ⟨hfail, hsame⟩ | ⟨hno, hmoved, hmiss⟩
  · rw [hsame]
    exact ⟨rfl, le_rfl, fun hsucc => absurd hsucc hfail⟩
  obtain ⟨hmono, hfresh⟩ := chosen_bounds old opts hle
  rw [hmoved]
  refine ⟨rfl, hmono, fun _ => ⟨?_, fun hst => ?_⟩⟩
  · rcases Nat.eq_or_lt_of_le (hpast.trans hmono) with heq | hlt
    · -- the frame of the flush: the handle was there, and so is the channel
      have hsame : chan.seqNum = (hist₀ ++ new).length := by
        by_contra hne
        have := hfresh (by omega)
        omega
      refine Or.inr ⟨heq.symm, ?_, ?_⟩
      · by_contra hcopy
        exact hno (Or.inr ⟨hsame, by simpa using hcopy⟩)
      · rw [List.length_append] at hsame
        exact List.eq_nil_of_length_eq_zero (by omega)
    · exact Or.inl hlt
  · refine ⟨chan.seqNum + 1, by omega, hmiss hst, fun q hq => ?_⟩
    have := hgot q hq
    omega

/-! ### Runs after the flush -/

variable {H : Type} [DecidableEq H] {dbg : Bool} {cnt size : ℕ} {hist₀ : List (List UInt8)}
  {evs : List (Event H)} {s t : Sys H} {h : H}

/-- A call on a handle that is not open returns only if it is a put, which does nothing. -/
theorem call_unmapped {c : Call} {r : Reply} (hm : (s.chan h).mapped = false)
    (hcall : s.call dbg h c = .ok (r, t)) : t = s ∧ Event.frames ⟨h, c, r⟩ = [] := by
  cases c with
  | put buf len =>
    have hout : out (achPut (s.chan h) buf len) dbg s.shm = .ok (.einval, s.shm) := by
      cases buf with
      | none => rfl
      | some buf => simp [achPut, hm]
    rw [Sys.call, hout, Outcome.bind_ok, Outcome.ok.injEq, Prod.mk.injEq] at hcall
    obtain ⟨rfl, rfl⟩ := hcall
    exact ⟨rfl, by cases buf <;> rfl⟩
  | get bufSize abstime opts ws => simp [Sys.call, achGet, hm, Outcome.bind] at hcall
  | flush => simp [Sys.call, achFlush, hm, Outcome.bind] at hcall

/-- A call leads from a reachable state to a reachable state. -/
theorem reachable_call {hist : List (List UInt8)} {g : H} {c : Call} {r : Reply}
    (hs : Reachable dbg cnt size hist s) (hcall : s.call dbg g c = .ok (r, t)) :
    Reachable dbg cnt size (hist ++ Event.frames ⟨g, c, r⟩) t := by
  rcases Bool.eq_false_or_eq_true (s.chan g).mapped with hm | hm
  · exact hs.step (.call hm hcall)
  · obtain ⟨rfl, hframes⟩ := call_unmapped hm hcall
    rwa [hframes, List.append_nil]

/-- **The state of a handle since its flush**, after the events `evs`: it is at or past the flush,
and past all that it has got. -/
structure Since (dbg : Bool) (cnt size : ℕ) (hist₀ : List (List UInt8)) (h : H)
    (evs : List (Event H)) (s : Sys H) : Prop where
  reachable : Reachable dbg cnt size (hist₀ ++ puts evs) s
  mapped : (s.chan h).mapped = true
  past : hist₀.length ≤ (s.chan h).seqNum
  got : ∀ q ∈ (received h evs).map Prod.fst, q ≤ (s.chan h).seqNum

/-- A get of the handle moves it forward, if at all, and what it gives is fresh. The other handles
may take steps while it waits. -/
theorem Since.get_fresh {bufSize : ℕ} {abstime : Bool} {opts : AchGetOpts} {ws : List WaitEvent}
    {fs : List (List UInt8)} {res : GetResult} {chan' : AchChannel} {u : AchHeader}
    (hs : Since dbg cnt size hist₀ h evs s) (hcnt : 2 ≤ cnt) (hwrap : NoWrap cnt size)
    (hws : Waits dbg h s ws fs) (hseq : (hist₀ ++ puts evs).length + fs.length + 1 < 2 ^ 64)
    (hout : out (achGet (s.chan h) bufSize abstime opts ws) dbg s.shm = .ok ((res, chan'), u)) :
    chan'.mapped = true ∧ (s.chan h).seqNum ≤ chan'.seqNum ∧ (Success res →
      Fresh hist₀.length (puts evs) ((received h evs).map Prod.fst) opts res chan'.seqNum) := by
  cases achGet_answered hs.reachable hcnt hwrap hs.mapped bufSize abstime opts hws hseq with
  | blocked hw hon ho =>
    rw [ho] at hout
    simp at hout
  | timeout hsteps hw hran ho =>
    rw [ho] at hout
    obtain ⟨⟨rfl, rfl⟩, -⟩ : (GetResult.bare .timeout = res ∧ s.chan h = chan') ∧ _ := by
      simpa using hout
    exact ⟨hs.mapped, le_rfl, fun hsucc => by simp [Success, GetResult.bare] at hsucc⟩
  | answer hsteps hlen hnow hlast hold hnew hwait ho =>
    rename_i t gs old
    have hle : (s.chan h).seqNum ≤ (hist₀ ++ (puts evs ++ gs)).length := by
      have := ((hs.reachable.consistent hwrap (by omega)).cursor h hs.mapped).seqNum
      simp only [List.length_append] at this ⊢
      omega
    obtain ⟨hm, hmono, hfresh⟩ := getAnswer_fresh old cnt bufSize opts hs.past hle hs.got
    rw [ho, List.append_assoc, Outcome.ok.injEq, Prod.mk.injEq] at hout
    rw [hout.1] at hm hmono hfresh
    refine ⟨hm.trans hs.mapped, hmono, fun hsucc => ?_⟩
    obtain ⟨hnewer, hmissed⟩ := hfresh hsucc
    refine ⟨hnewer.imp_right fun hcopy => ?_, hmissed⟩
    exact ⟨hcopy.1, hcopy.2.1, (List.append_eq_nil_iff.mp hcopy.2.2).1⟩

/-- One more event that moves the handle forward, to the frame it gets, if any. -/
theorem Since.concat {e : Event H} (hs : Since dbg cnt size hist₀ h evs s)
    (ht : Reachable dbg cnt size (hist₀ ++ puts (evs ++ [e])) t) (hm : (t.chan h).mapped = true)
    (hmono : (s.chan h).seqNum ≤ (t.chan h).seqNum)
    (hd : ∀ d, delivery h e = some d → d.1 = (t.chan h).seqNum) :
    Since dbg cnt size hist₀ h (evs ++ [e]) t := by
  refine ⟨ht, hm, hs.past.trans hmono, fun q hq => ?_⟩
  rw [received_concat, List.map_append, List.mem_append] at hq
  rcases hq with hq | hq
  · exact (hs.got q hq).trans hmono
  · obtain ⟨d, hmem, rfl⟩ := List.mem_map.mp hq
    exact (hd d (by simpa using hmem)).le

/-- The frame delivered is the one the handle is at. -/
theorem delivery_get {c : Call} {res : GetResult} {chan' : AchChannel} {d : ℕ × List UInt8}
    (hd : delivery h ⟨h, c, .get res chan'⟩ = some d) : d.1 = chan'.seqNum := by
  simp only [delivery] at hd
  split_ifs at hd
  rw [← Option.some.inj hd]

/-- A call of another handle delivers nothing. -/
theorem delivery_other {g : H} {c : Call} {r : Reply} (hne : g ≠ h) :
    delivery h ⟨g, c, r⟩ = none := by
  cases r <;> simp [delivery, hne]

/-- **A call of any handle** keeps the state of the handle since its flush. -/
theorem Since.call {g : H} {c : Call} {r : Reply} (hs : Since dbg cnt size hist₀ h evs s)
    (hcnt : 2 ≤ cnt) (hwrap : NoWrap cnt size) (hseq : (hist₀ ++ puts evs).length + 1 < 2 ^ 64)
    (hcall : s.call dbg g c = .ok (r, t)) : Since dbg cnt size hist₀ h (evs ++ [⟨g, c, r⟩]) t := by
  have hreach := reachable_call hs.reachable hcall
  rw [List.append_assoc, ← puts_concat] at hreach
  have hcons := hs.reachable.consistent hwrap hseq
  rcases eq_or_ne g h with rfl | hne
  swap
  · have hsame : t.chan h = s.chan h := by
      rcases Bool.eq_false_or_eq_true (s.chan g).mapped with hm | hm
      · exact (Step.call hm hcall).chan_other hne.symm
      · rw [(call_unmapped hm hcall).1]
    refine hs.concat hreach (by rw [hsame]; exact hs.mapped) (by rw [hsame]) fun d hd => ?_
    rw [delivery_other hne] at hd
    simp at hd
  cases c with
  | put buf len =>
    obtain ⟨p, hp, hr⟩ := Outcome.bind_eq_ok.mp hcall
    obtain ⟨rfl, rfl⟩ : Reply.put p.1 p.2 = r ∧ { s with shm := p.2 } = t := by simpa using hr
    exact hs.concat hreach hs.mapped le_rfl fun d hd => by simp [delivery] at hd
  | get bufSize abstime opts ws =>
    obtain ⟨p, hp, hr⟩ := Outcome.bind_eq_ok.mp hcall
    obtain ⟨rfl, rfl⟩ : Reply.get p.1.1 p.1.2 = r ∧ ⟨p.2, Function.update s.chan g p.1.2⟩ = t := by
      simpa using hr
    obtain ⟨hm, hmono, -⟩ := hs.get_fresh hcnt hwrap (waits_quiet g s ws) hseq hp
    refine hs.concat hreach ?_ ?_ fun d hd => ?_
    · simpa using hm
    · simpa using hmono
    · simpa using delivery_get hd
  | flush =>
    obtain ⟨p, hp, hr⟩ := Outcome.bind_eq_ok.mp hcall
    obtain ⟨rfl, rfl⟩ : Reply.flush p.1.1 p.1.2 = r ∧
        ⟨p.2, Function.update s.chan g p.1.2⟩ = t := by
      simpa using hr
    obtain ⟨kept, hinv⟩ := hcons.inv
    have hle := (hcons.cursor g hs.mapped).seqNum
    obtain ⟨r', chan', hout, hres⟩ := achFlush_spec dbg hinv.toRep hcons.clean hs.mapped
    rw [hout, Outcome.ok.injEq] at hp
    subst hp
    refine hs.concat hreach ?_ ?_ fun d hd => by simp [delivery] at hd
    · rcases hres with ⟨-, rfl⟩ | ⟨-, rfl⟩ <;> simpa using hs.mapped
    · rcases hres with ⟨-, rfl⟩ | ⟨-, rfl⟩
      · simp only [Function.update_self]
        rw [Nat.mod_eq_of_lt (by omega)]
        exact hle
      · simp

/-- **The run lemma.** -/
theorem Since.run (hcnt : 2 ≤ cnt) (hwrap : NoWrap cnt size) : ∀ (calls : List (H × Call))
    (pre evs : List (Event H)) (s t : Sys H), Since dbg cnt size hist₀ h pre s →
      (hist₀ ++ puts pre).length + putCount calls + 1 < 2 ^ 64 →
      run dbg calls s = .ok (evs, t) → Since dbg cnt size hist₀ h (pre ++ evs) t ∧
        (puts (pre ++ evs)).length ≤ (puts pre).length + putCount calls := by
  intro cs
  induction cs with
  | nil =>
    intro pre evs s t hs _ hrun
    obtain ⟨rfl, rfl⟩ : [] = evs ∧ s = t := by simpa [Runs.run] using hrun
    rw [List.append_nil]
    exact ⟨hs, Nat.le_add_right _ _⟩
  | cons p cs ih =>
    intro pre evs s t hs hn hrun
    obtain ⟨g, c⟩ := p
    obtain ⟨⟨r, s₁⟩, hcall, hrun⟩ := Outcome.bind_eq_ok.mp hrun
    obtain ⟨⟨evs₁, s₂⟩, hrest, hevs⟩ := Outcome.bind_eq_ok.mp hrun
    obtain ⟨rfl, rfl⟩ : ⟨g, c, r⟩ :: evs₁ = evs ∧ s₂ = t := by simpa using hevs
    have hcount := putCount_cons g c cs
    have hlen := length_frames g c r
    have hs₁ := hs.call hcnt hwrap (by omega) hcall
    have hputs := congrArg List.length (puts_concat pre ⟨g, c, r⟩)
    rw [List.length_append] at hputs hn
    obtain ⟨hs₂, hle⟩ := ih _ _ s₁ s₂ hs₁ (by rw [List.length_append]; omega) hrest
    rw [List.append_cons]
    exact ⟨hs₂, by omega⟩

/-! ### The flush -/

/-- **`ach_flush` discards the newest frame.** Handle `h` flushes in the state `s` of a channel that
has accepted `hist`, and the state is `t` then.

If there is a frame, a get of the newest one with room for it leads to the same cursor, and every
sequence of calls goes on from there as it does from `t`. After any sequence of calls that follows
the flush, a get of the handle gives what is fresh, also if it waits meanwhile. -/
structure Discards (dbg : Bool) (hist : List (List UInt8)) (h : H) (s t : Sys H) : Prop where
  flush : s.call dbg h .flush = .ok (.flush .ok (t.chan h), t)
  newest : 0 < s.shm.lastSeq → ∀ bufSize abstime ws,
    (hist.getD (hist.length - 1) []).length ≤ bufSize →
    ∃ res u, s.call dbg h (.get bufSize abstime ⟨false, true, true⟩ ws) =
        .ok (.get res (u.chan h), u) ∧ Success res ∧
      (u.chan h).seqNum = (t.chan h).seqNum ∧ (u.chan h).nextIndex = (t.chan h).nextIndex ∧
      ∀ calls, run dbg calls u = run dbg calls t
  later : ∀ calls evs u, run dbg calls t = .ok (evs, u) →
    ∀ bufSize abstime opts ws fs res chan' v, Waits dbg h u ws fs →
      hist.length + putCount calls + fs.length + 1 < 2 ^ 64 →
      out (achGet (u.chan h) bufSize abstime opts ws) dbg u.shm = .ok ((res, chan'), v) →
      Success res →
      Fresh s.shm.lastSeq (puts evs) ((received h evs).map Prod.fst) opts res chan'.seqNum

section
variable {hist : List (List UInt8)}

/-- The state after a flush. -/
theorem call_flush (hs : Reachable dbg cnt size hist s) (hwrap : NoWrap cnt size)
    (hm : (s.chan h).mapped = true) (hseq : hist.length + 1 < 2 ^ 64) :
    s.call dbg h .flush = .ok (.flush .ok (movedTo cnt (s.chan h) hist.length),
      ⟨s.shm, Function.update s.chan h (movedTo cnt (s.chan h) hist.length)⟩) := by
  have hcons := hs.consistent hwrap hseq
  obtain ⟨kept, hinv⟩ := hcons.inv
  have hlast := Rep.lastSeq_eq hinv.toRep (by omega)
  have hhead := hinv.indexHead
  rw [hcons.indexCnt] at hhead
  rw [Sys.call, out_achFlush dbg hcons.clean hm (hcons.live h hm), Outcome.bind_ok, hlast, hhead]
  rfl

/-- The state after a get of the newest frame: the same. -/
theorem call_get_newest (hs : Reachable dbg cnt size hist s) (hcnt : 2 ≤ cnt)
    (hwrap : NoWrap cnt size) (hm : (s.chan h).mapped = true) (hseq : hist.length + 1 < 2 ^ 64)
    (hpos : 0 < s.shm.lastSeq) {bufSize : ℕ} (abstime : Bool) (ws : List WaitEnd)
    (hbuf : (hist.getD (hist.length - 1) []).length ≤ bufSize) :
    ∃ res, s.call dbg h (.get bufSize abstime ⟨false, true, true⟩ ws) =
      .ok (.get res (movedTo cnt (s.chan h) hist.length),
        ⟨s.shm, Function.update s.chan h (movedTo cnt (s.chan h) hist.length)⟩) ∧ Success res := by
  obtain ⟨kept, hinv⟩ := (hs.consistent hwrap hseq).inv
  have hlast := Rep.lastSeq_eq hinv.toRep (by omega)
  have hne : hist ≠ [] := by
    rintro rfl
    simp [hlast] at hpos
  have hno : ¬ NoFrame ⟨false, true, true⟩ hist.length (s.chan h).seqNum := by
    simp [NoFrame, hne]
  have hchosen : ∀ old, chosen hist.length old (s.chan h).seqNum ⟨false, true, true⟩ =
      hist.length := by
    simp [chosen]
  have hfit : (chosenFrame hist (hist.length - kept + 1) ⟨false, true, true⟩ (s.chan h)).length ≤
      bufSize := by
    rw [chosenFrame, hchosen]
    exact hbuf
  have hout := achGet_retry hs hcnt hwrap hseq hm rfl
    (fun _ => isLeast_retained hinv (by omega) hne) (by simp) hno (.refl s) hfit abstime
    (ws.map WaitEnd.event)
  rw [hchosen] at hout
  refine ⟨_, by rw [Sys.call, hout]; rfl, ?_⟩
  unfold Success
  simp only
  split_ifs <;> simp

/-- A handle that has just flushed. -/
theorem since_flush (hs : Reachable dbg cnt size hist s) (hwrap : NoWrap cnt size)
    (hm : (s.chan h).mapped = true) (hseq : hist.length + 1 < 2 ^ 64) :
    Since dbg cnt size hist h []
      ⟨s.shm, Function.update s.chan h (movedTo cnt (s.chan h) hist.length)⟩ := by
  have hreach := reachable_call hs (call_flush hs hwrap hm hseq)
  refine ⟨hreach, by simpa [movedTo] using hm, by simp [movedTo], by simp [received]⟩

/-- **Flushing is reading the newest frame and throwing it away**, in every reachable state of a
channel with at least two index entries. -/
theorem flush_discards (hs : Reachable dbg cnt size hist s) (hcnt : 2 ≤ cnt)
    (hwrap : NoWrap cnt size) (hm : (s.chan h).mapped = true) (hseq : hist.length + 1 < 2 ^ 64) :
    ∃ t, Discards dbg hist h s t := by
  have hlast : s.shm.lastSeq = hist.length := by
    obtain ⟨kept, hinv⟩ := (hs.consistent hwrap hseq).inv
    exact Rep.lastSeq_eq hinv.toRep (by omega)
  refine ⟨⟨s.shm, Function.update s.chan h (movedTo cnt (s.chan h) hist.length)⟩, ?_, ?_, ?_⟩
  · simpa using call_flush hs hwrap hm hseq
  · intro hpos bufSize abstime ws hbuf
    obtain ⟨res, hcall, hsucc⟩ := call_get_newest hs hcnt hwrap hm hseq hpos abstime ws hbuf
    exact ⟨res, _, by simpa using hcall, hsucc, rfl, rfl, fun _ => rfl⟩
  · intro calls evs u hrun bufSize abstime opts ws fs res chan' v hws hn hout hsucc
    obtain ⟨hsince, hle⟩ := Since.run hcnt hwrap calls [] evs _ u (since_flush hs hwrap hm hseq)
      (by simp [puts]; omega) hrun
    rw [List.nil_append] at hsince hle
    have hnil : (puts ([] : List (Event H))).length = 0 := rfl
    rw [hlast]
    exact (hsince.get_fresh hcnt hwrap hws (by rw [List.length_append]; omega) hout).2.2 hsucc

end

/-- Two handles on a channel of 2 frames of 3 bytes; the second flushes after the first has put a
frame. -/
theorem flush_discards_sample : ∃ (s : Sys Bool) (hist : List (List UInt8)),
    Reachable true 2 3 hist s ∧ s.shm.lastSeq = 1 ∧ ∃ t, Discards true hist true s t := by
  have hval : ((sampleOpened.call true false (.put (some fun _ => 7) 2)).bind fun p =>
      .ok (p.2.shm.lastSeq, (p.2.chan true).mapped)) = .ok (1, true) := by
    decide +kernel
  obtain ⟨⟨r, t⟩, hcall, hval⟩ := Outcome.bind_eq_ok.mp hval
  obtain ⟨hlast, hm⟩ : t.shm.lastSeq = 1 ∧ (t.chan true).mapped = true := by simpa using hval
  have hreach := (reachable_sampleOpened true).step (.call (h := false) rfl hcall)
  have hlen := length_frames false (.put (some fun _ => 7) 2) r
  refine ⟨t, _, hreach, hlast, flush_discards hreach (by decide) (by decide) hm ?_⟩
  simp only [List.nil_append, Call.isPut, if_true] at hlen ⊢
  omega

end Ach.Channel.Flush
