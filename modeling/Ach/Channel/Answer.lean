import Ach.Channel.Discipline
import Ach.Channel.Reach
import Mathlib.Order.Bounds.Basic

/-! # What `ach_get` answers

In a reachable state of a channel with at least two index entries, `ach_get` is a function of the
frames accepted, of the oldest frame held and of the handle's position (`getAnswer`); the oldest
frame held is the one with the least sequence number in the index array. A call that waits is that
function in the state in which its wait ends.

An answer that delivers nothing changes nothing, so the call can be repeated; after `ACH_OVERFLOW` a
buffer of the size reported is large enough, as long as nothing is put meanwhile. -/

namespace Ach.Channel.Answer

open Ach.Lib.Run
open Ach.Channel.Types Ach.Channel.Lock Ach.Channel.Put Ach.Channel.Get Ach.Channel.Create
open Ach.Channel.Invariant
open Ach.Channel.PutSpec Ach.Channel.GetSpec Ach.Channel.History Ach.Channel.Runs Ach.Channel.Reach
open Ach.Channel.Discipline

variable {H : Type} [DecidableEq H] {dbg : Bool}

/-! ### The oldest frame -/

/-- The sequence numbers of the frames held. -/
def retained (shm : AchHeader) : Set ℕ := {n | n ≠ 0 ∧ ∃ e ∈ shm.index, e.seqNum = n}

/-- The oldest frame held has the least sequence number in the index array. -/
theorem isLeast_retained {hist : List (List UInt8)} {kept : ℕ} {shm : AchHeader}
    (h : Inv hist kept shm) (hseq : hist.length < 2 ^ 64) (hne : hist ≠ []) :
    IsLeast (retained shm) (hist.length - kept + 1) := by
  have hkept := h.keptPos hne
  have hkh := h.keptHist
  have hpos : 0 < hist.length := List.length_pos_iff.mpr hne
  constructor
  · have hslot := Rep.numbered h.toRep hseq (s := hist.length - kept) le_rfl (by omega)
    exact ⟨by omega, _, List.mem_of_getElem? hslot, rfl⟩
  · rintro n ⟨hn, e, he, rfl⟩
    obtain ⟨i, hi, rfl⟩ := List.getElem_of_mem he
    have hlen := h.indexLen
    obtain ⟨e', he', hcase⟩ := Rep.slot_cases h.toRep hseq (show i < shm.indexCnt by omega)
    rw [List.getElem?_eq_getElem hi, Option.some.injEq] at he'
    rcases hcase with h0 | ⟨s, hs, -, hlo, -⟩
    · rw [← he'] at h0
      exact absurd h0 hn
    · rw [← he'] at hs
      omega

/-! ### The answer -/

omit [DecidableEq H] in
/-- A handle of a consistent state is answered what `getAnswer` says, with the mutex held. -/
theorem getCritical_answer (dbg : Bool) {cnt size : ℕ} {hist : List (List UInt8)} {t : Sys H}
    {chan : AchChannel} (ht : Consistent cnt size hist t)
    (hseq : hist.length + 1 < 2 ^ 64) (hcur : Cursor hist.length cnt chan) (bufSize : ℕ)
    (opts : AchGetOpts) (hnext : opts.last = true ∨ chan.nextIndex < cnt)
    (hnew : opts.wait = true → chan.seqNum ≠ t.shm.lastSeq) :
    ∃ old, (hist ≠ [] → IsLeast (retained t.shm) old) ∧ t.shm.lastSeq = hist.length ∧
      out (getCritical chan bufSize opts) dbg (setMutex .held t.shm) =
        .ok (getAnswer hist old cnt bufSize opts chan, setMutex .held t.shm) := by
  obtain ⟨kept, hinv⟩ := ht.inv
  have hlast := Rep.lastSeq_eq hinv.toRep (Nat.lt_of_succ_lt hseq)
  rw [← ht.indexCnt] at hcur hnext
  have heq := getCritical_eq dbg bufSize opts (Inv.setMutex hinv .held) hcur hnext hseq
    (by rw [← hlast]; exact hnew)
  have hic : (setMutex .held t.shm).indexCnt = cnt := ht.indexCnt
  rw [hic] at heq
  exact ⟨_, isLeast_retained hinv (by omega), hlast, heq⟩

section
variable (hist : List (List UInt8)) (old cnt size : ℕ) (opts : AchGetOpts) (chan : AchChannel)

/-- The frame that is chosen. -/
def chosenFrame : List UInt8 := hist.getD (chosen hist.length old chan.seqNum opts - 1) []

/-- A handle that got frame number `q`. -/
def movedTo (q : ℕ) : AchChannel := { chan with seqNum := q, nextIndex := q % cnt }

theorem getAnswer_noFrame (h : NoFrame opts hist.length chan.seqNum) :
    getAnswer hist old cnt size opts chan = (.bare .staleFrames, chan) := if_pos h

theorem getAnswer_overflow (h : ¬ NoFrame opts hist.length chan.seqNum)
    (hbig : size < (chosenFrame hist old opts chan).length) :
    getAnswer hist old cnt size opts chan =
      (⟨.overflow, [], some (chosenFrame hist old opts chan).length⟩, chan) :=
  (if_neg h).trans (if_pos hbig)

theorem getAnswer_delivers (h : ¬ NoFrame opts hist.length chan.seqNum)
    (hfit : (chosenFrame hist old opts chan).length ≤ size) :
    getAnswer hist old cnt size opts chan =
      (⟨if chan.seqNum + 1 < chosen hist.length old chan.seqNum opts then .missedFrame else .ok,
        chosenFrame hist old opts chan, some (chosenFrame hist old opts chan).length⟩,
        movedTo cnt chan (chosen hist.length old chan.seqNum opts)) :=
  (if_neg h).trans (if_neg (Nat.not_lt.mpr hfit))

/-- The answer is `ACH_STALE_FRAMES` if and only if there is no frame to answer with. -/
theorem getAnswer_stale_iff : (getAnswer hist old cnt size opts chan).1.status = .staleFrames ↔
    NoFrame opts hist.length chan.seqNum := by
  constructor
  · intro hst
    by_contra hno
    rcases Nat.lt_or_ge size (chosenFrame hist old opts chan).length with hbig | hfit
    · rw [getAnswer_overflow _ _ _ _ _ _ hno hbig] at hst
      simp at hst
    · rw [getAnswer_delivers _ _ _ _ _ _ hno hfit] at hst
      simp only at hst
      split_ifs at hst
  · intro hno
    rw [getAnswer_noFrame _ _ _ _ _ _ hno]
    rfl

end

/-- How a get of handle `h` ends in terms of the answer: it waits on, or its time ran out in a state
`t`, or it gets the answer of a state `t`. -/
inductive Answered (dbg : Bool) (cnt : ℕ) (hist : List (List UInt8)) (h : H) (s : Sys H) (size : ℕ)
    (abstime : Bool) (opts : AchGetOpts) (ws : List WaitEvent)
    (o : Outcome ((GetResult × AchChannel) × AchHeader)) : Prop where
  | blocked (hw : opts.wait = true) (hon : WaitsOn abstime (s.chan h) ws s.shm) (ho : o = .block)
  | timeout {t : Sys H} {gs : List (List UInt8)} (hsteps : Steps dbg (· ≠ h) s gs t)
      (hw : opts.wait = true) (hran : RunsOut abstime (s.chan h) ws s.shm t.shm)
      (ho : o = .ok ((.bare .timeout, s.chan h), t.shm))
  | answer {t : Sys H} {gs : List (List UInt8)} {old : ℕ} (hsteps : Steps dbg (· ≠ h) s gs t)
      (hlen : (hist ++ gs).length + 1 < 2 ^ 64)
      (hnow : opts.wait = false → t = s ∧ gs = [])
      (hlast : t.shm.lastSeq = (hist ++ gs).length)
      (hold : t.shm.lastSeq ≠ 0 → IsLeast (retained t.shm) old)
      (hnew : opts.wait = true → Wakes abstime (s.chan h) ws s.shm t.shm)
      (hwait : opts.wait = true → ¬ NoFrame opts t.shm.lastSeq (s.chan h).seqNum)
      (ho : o = .ok (getAnswer (hist ++ gs) old cnt size opts (s.chan h), t.shm))

/-- **`ach_get` computes the answer**, in every reachable state of a channel with at least two index
entries, while other handles take steps. -/
theorem achGet_answered {cnt frameSize : ℕ} {hist : List (List UInt8)} {s : Sys H} {h : H}
    (hs : Reachable dbg cnt frameSize hist s) (hcnt : 2 ≤ cnt) (hwrap : NoWrap cnt frameSize)
    (hm : (s.chan h).mapped = true) (size : ℕ) (abstime : Bool) (opts : AchGetOpts)
    {ws : List WaitEvent} {fs : List (List UInt8)} (hws : Waits dbg h s ws fs)
    (hseq : hist.length + fs.length + 1 < 2 ^ 64) :
    Answered dbg cnt hist h s size abstime opts ws
      (out (achGet (s.chan h) size abstime opts ws) dbg s.shm) := by
  have hcons := hs.consistent hwrap (by omega)
  cases achGet_waits size abstime opts hws hcons.clean hm (hcons.live h hm) with
  | blocked hw hon ho => exact .blocked hw hon ho
  | timeout hsteps hgs hw hran ho => exact .timeout hsteps hw hran ho
  | taken hsteps hgs hnow hnew ho =>
    rename_i t gs
    have hlen : (hist ++ gs).length + 1 < 2 ^ 64 := by
      rw [List.length_append]
      omega
    have ht := (hs.steps hsteps).consistent hwrap hlen
    have hchan : t.chan h = s.chan h := hsteps.chan_other
    have hcur := ht.cursor h (by rw [hchan]; exact hm)
    rw [hchan] at hcur
    obtain ⟨old, hold, hlast, hcrit⟩ := getCritical_answer dbg ht hlen hcur size opts
      (Or.inr (hcur.nextIndex_lt hcnt)) fun hw => (hnew hw).seqNum_ne
    refine .answer hsteps hlen hnow hlast (fun hne => hold fun he => ?_) hnew (fun hw hno => ?_) ?_
    · rw [hlast, he] at hne
      exact hne rfl
    · have hle := hcur.seqNum
      have := (hnew hw).seqNum_ne
      rw [hlast] at this hno
      rcases hno with h0 | ⟨h0, -⟩
      · omega
      · exact this h0
    · rw [ho, hcrit]
      rfl

/-- **The functional specification of `ach_get`**, as a property of the outcome `o` of a get of
handle `h` that found the state `s`. A call that waits, waits on while there is nothing new for the
handle, or times out in a wait before which there is nothing new, or is evaluated in the state `t`
in which its wait ends, the first one with something new. Any other call is evaluated at once. The
result is then `ACH_STALE_FRAMES` if and only if the call does not wait and there is no frame to
answer with. Otherwise it chooses a frame; if the frame is larger than the buffer it says how large
it is, and if not it delivers the frame, moves the handle just past it and says whether frames in
between were missed. -/
def MeetsGetSpec (dbg : Bool) (cnt : ℕ) (hist : List (List UInt8)) (h : H) (s : Sys H) (size : ℕ)
    (abstime : Bool) (opts : AchGetOpts) (ws : List WaitEvent)
    (o : Outcome ((GetResult × AchChannel) × AchHeader)) : Prop :=
  (o = .block ∧ opts.wait = true ∧ WaitsOn abstime (s.chan h) ws s.shm) ∨
  (∃ t gs, Steps dbg (· ≠ h) s gs t ∧ opts.wait = true ∧ abstime = true ∧
    RunsOut abstime (s.chan h) ws s.shm t.shm ∧
    o = .ok ((.bare .timeout, s.chan h), t.shm)) ∨
  ∃ t gs old res chan', Steps dbg (· ≠ h) s gs t ∧ (opts.wait = false → t = s ∧ gs = []) ∧
    (opts.wait = true → Wakes abstime (s.chan h) ws s.shm t.shm) ∧
    t.shm.lastSeq = (hist ++ gs).length ∧
    (t.shm.lastSeq ≠ 0 → IsLeast (retained t.shm) old) ∧
    o = .ok ((res, chan'), t.shm) ∧
    (res.status = .staleFrames ↔
      opts.wait = false ∧ NoFrame opts t.shm.lastSeq (s.chan h).seqNum) ∧
    (NoFrame opts t.shm.lastSeq (s.chan h).seqNum → chan' = s.chan h ∧ res.bytes = []) ∧
    (¬ NoFrame opts t.shm.lastSeq (s.chan h).seqNum →
      let q := chosen t.shm.lastSeq old (s.chan h).seqNum opts
      let frame := (hist ++ gs).getD (q - 1) []
      if size < frame.length then
        res = ⟨.overflow, [], some frame.length⟩ ∧ chan' = s.chan h
      else
        res = ⟨if (s.chan h).seqNum + 1 < q then .missedFrame else .ok, frame,
          some frame.length⟩ ∧
        chan' = { s.chan h with seqNum := q, nextIndex := q % cnt })

/-- **`ach_get` meets its specification** in every reachable state of a channel with at least two
index entries, whatever the other handles do while it waits. -/
theorem achGet_functional {cnt frameSize : ℕ} {hist : List (List UInt8)} {s : Sys H} {h : H}
    (hs : Reachable dbg cnt frameSize hist s) (hcnt : 2 ≤ cnt) (hwrap : NoWrap cnt frameSize)
    (hm : (s.chan h).mapped = true) (size : ℕ) (abstime : Bool) (opts : AchGetOpts)
    {ws : List WaitEvent} {fs : List (List UInt8)} (hws : Waits dbg h s ws fs)
    (hseq : hist.length + fs.length + 1 < 2 ^ 64) :
    MeetsGetSpec dbg cnt hist h s size abstime opts ws
      (out (achGet (s.chan h) size abstime opts ws) dbg s.shm) := by
  cases achGet_answered hs hcnt hwrap hm size abstime opts hws hseq with
  | blocked hw hon ho => exact Or.inl ⟨ho, hw, hon⟩
  | timeout hsteps hw hran ho =>
    exact Or.inr (Or.inl ⟨_, _, hsteps, hw, hran.abstime_eq, hran, ho⟩)
  | answer hsteps hlen hnow hlast hold hnew hwait ho =>
    rename_i t gs old
    refine Or.inr (Or.inr ⟨t, gs, old, (getAnswer (hist ++ gs) old cnt size opts (s.chan h)).1,
      (getAnswer (hist ++ gs) old cnt size opts (s.chan h)).2, hsteps, hnow, hnew, hlast, hold,
      ho, ?_, ?_, ?_⟩)
    · rw [getAnswer_stale_iff, ← hlast]
      constructor
      · intro hno
        refine ⟨?_, hno⟩
        by_contra hw
        exact hwait (by simpa using hw) hno
      · rintro ⟨-, hno⟩
        exact hno
    · intro hno
      rw [hlast] at hno
      rw [getAnswer_noFrame _ _ _ _ _ _ hno]
      exact ⟨rfl, rfl⟩
    · intro hno
      rw [hlast] at hno ⊢
      intro q frame
      by_cases hbig : size < frame.length
      · rw [if_pos hbig, getAnswer_overflow _ _ _ _ _ _ hno hbig]
        exact ⟨rfl, rfl⟩
      · rw [if_neg hbig, getAnswer_delivers _ _ _ _ _ _ hno (Nat.not_lt.mp hbig)]
        exact ⟨rfl, rfl⟩

/-- Two handles, both open, on a new channel of 2 frames of 3 bytes. -/
def sampleOpened : Sys Bool := ⟨created 2 3, fun _ => openedChan (created 2 3)⟩

theorem reachable_sampleOpened (dbg : Bool) : Reachable dbg 2 3 [] sampleOpened := by
  have hcreate : achCreate dbg CreateEnv.allOk [97] 2 3 false = .ok (.ok (created 2 3)) := by
    cases dbg <;> decide
  have hopen : achOpen OpenEnv.allOk [97] false (created 2 3) =
      .ok (.ok (openedChan (created 2 3))) := by
    decide
  let s : Sys Bool := ⟨created 2 3, fun _ => ⟨false, 0, 0, 0, false⟩⟩
  have h0 : Reachable dbg 2 3 [] s := .create hcreate fun _ => rfl
  have h2 := (h0.step (.opens (h := false) hopen)).step (.opens (h := true) hopen)
  have heq : Function.update (Function.update s.chan false (openedChan (created 2 3))) true
      (openedChan (created 2 3)) = fun _ => openedChan (created 2 3) := by
    funext b
    cases b <;> rfl
  rw [heq] at h2
  exact h2

/-- One handle waits while the other one puts a frame. -/
theorem achGet_functional_sample : ∃ (s t : Sys Bool) (w : WaitEvent) (fs : List (List UInt8)),
    Reachable true 2 3 [] s ∧ Waits true true s [w] fs ∧ t.shm.lastSeq = 1 ∧
      w.others s.shm = t.shm ∧
      MeetsGetSpec true 2 [] true s 8 false ⟨true, false, false⟩ [w]
        (out (achGet (s.chan true) 8 false ⟨true, false, false⟩ [w]) true s.shm) := by
  have hok : (sampleOpened.call true false (.put (some fun _ => 7) 2)).isOk = true := by
    decide +kernel
  obtain ⟨⟨r, t⟩, hcall⟩ := Outcome.exists_of_isOk hok
  have hlast : ((sampleOpened.call true false (.put (some fun _ => 7) 2)).bind fun p =>
      .ok p.2.shm.lastSeq) = .ok 1 := by
    decide +kernel
  rw [hcall] at hlast
  have hlen := length_frames false (.put (some fun _ => 7) 2) r
  have hsteps : Steps true (· ≠ true) sampleOpened _ t :=
    .step (.refl _) (by simp) (.call (h := false) rfl hcall)
  have hws : Waits true true sampleOpened [⟨.zero, fun _ => t.shm, false⟩] _ :=
    .cons hsteps rfl rfl (Or.inl rfl) (.nil t)
  refine ⟨sampleOpened, t, _, _, reachable_sampleOpened true, hws, by simpa using hlast, rfl, ?_⟩
  refine achGet_functional (reachable_sampleOpened true) (by decide) (by decide) rfl 8 false _ hws
    ?_
  simp only [List.nil_append, List.append_nil, List.length_nil, Call.isPut, if_true] at hlen ⊢
  omega

/-! ### Answers that deliver nothing -/

/-- A step that adds no frame leaves the block as it was. -/
theorem Step.shm_eq {cnt frameSize : ℕ} {hist fs : List (List UInt8)} {s t : Sys H} {h : H}
    (hs : Consistent cnt frameSize hist s) (hcnt : 0 < cnt) (hseq : hist.length + 1 < 2 ^ 64)
    (hstep : Step dbg h s fs t) (hfs : fs = []) : t.shm = s.shm := by
  cases hstep with
  | opens ho => rfl
  | call hm hcall =>
    rename_i c r
    by_cases hput : ∃ buf len, c = .put buf len
    · obtain ⟨buf, len, rfl⟩ := hput
      obtain ⟨kept, hinv⟩ := hs.inv
      obtain ⟨p, hp, hr⟩ := Outcome.bind_eq_ok.mp hcall
      obtain ⟨rfl, rfl⟩ : Reply.put p.1 p.2 = r ∧ { s with shm := p.2 } = t := by simpa using hr
      by_cases ha : Accepts s.shm.dataSize ⟨s.chan h, buf, len⟩
      · obtain ⟨hbuf, hpos, hlen⟩ := ha
        obtain ⟨buf, rfl⟩ := Option.isSome_iff_exists.mp hbuf
        obtain ⟨kept', shm', hout, -, -⟩ := achPut_spec dbg buf hinv hs.clean hm
          (by rw [hs.indexCnt]; exact hcnt) hpos hlen fun _ => hseq
        rw [hout, Outcome.ok.injEq] at hp
        subst hp
        simp [Event.frames] at hfs
      · obtain ⟨r', hout, -⟩ := achPut_rejected dbg hs.clean.guards ha
        have hout' : out (achPut (s.chan h) buf len) dbg s.shm = .ok (r', s.shm) := hout
        rw [hout', Outcome.ok.injEq] at hp
        subst hp
        rfl
    · exact (call_read hs.clean (fun buf len he => hput ⟨buf, len, he⟩) hcall).1

/-- Steps that add no frame leave the block as it was. -/
theorem Steps.shm_eq {who : H → Prop} {cnt frameSize : ℕ} {hist fs : List (List UInt8)}
    {s t : Sys H} (hs : Reachable dbg cnt frameSize hist s) (hcnt : 2 ≤ cnt)
    (hwrap : NoWrap cnt frameSize) (hseq : hist.length + 1 < 2 ^ 64)
    (hsteps : Steps dbg who s fs t) : fs = [] → t.shm = s.shm := by
  induction hsteps with
  | refl =>
    intro _
    rfl
  | step hsteps hw hstep ih =>
    intro hfs
    obtain ⟨h1, h2⟩ := List.append_eq_nil_iff.mp hfs
    have hmid := hs.steps hsteps
    rw [h1, List.append_nil] at hmid
    rw [Step.shm_eq (hmid.consistent hwrap hseq) (by omega) hseq hstep h2, ih h1]

/-- The retry of a get after `ACH_OVERFLOW`: in a state in which nothing has been put, a buffer that
is large enough gets the frame that was chosen. -/
theorem achGet_retry {cnt frameSize old : ℕ} {hist : List (List UInt8)} {t v : Sys H} {h : H}
    {chan : AchChannel} {opts : AchGetOpts} (ht : Reachable dbg cnt frameSize hist t)
    (hcnt : 2 ≤ cnt) (hwrap : NoWrap cnt frameSize) (hseq : hist.length + 1 < 2 ^ 64)
    (hm : chan.mapped = true) (hchan : t.chan h = chan)
    (hold : t.shm.lastSeq ≠ 0 → IsLeast (retained t.shm) old)
    (hnew : opts.wait = true → chan.seqNum ≠ t.shm.lastSeq)
    (hno : ¬ NoFrame opts hist.length chan.seqNum)
    (hsteps : Steps dbg (· ≠ h) t [] v) {size : ℕ}
    (hsize : (chosenFrame hist old opts chan).length ≤ size) (abstime : Bool)
    (ws : List WaitEvent) :
    out (achGet chan size abstime opts ws) dbg v.shm =
      .ok ((⟨if chan.seqNum + 1 < chosen hist.length old chan.seqNum opts then .missedFrame
          else .ok,
        chosenFrame hist old opts chan, some (chosenFrame hist old opts chan).length⟩,
        movedTo cnt chan (chosen hist.length old chan.seqNum opts)), v.shm) := by
  have hshm : v.shm = t.shm := Steps.shm_eq ht hcnt hwrap hseq hsteps rfl
  have hcons := ht.consistent hwrap hseq
  have hcur := hcons.cursor h (by rw [hchan]; exact hm)
  have hlive := hcons.live h (by rw [hchan]; exact hm)
  rw [hchan] at hcur hlive
  obtain ⟨old', hold', hlast, hcrit⟩ := getCritical_answer dbg hcons hseq hcur size opts
    (Or.inr (hcur.nextIndex_lt hcnt)) hnew
  have hne : hist ≠ [] := fun he => hno (Or.inl (by rw [he]; rfl))
  have hpos : t.shm.lastSeq ≠ 0 := fun h0 => hno (Or.inl (by rw [← hlast, h0]))
  obtain rfl : old = old' := (hold hpos).unique (hold' hne)
  have hr := rdlock_now dbg abstime ws hcons.clean hlive hnew
  rw [hshm, achGet_of_rdlock size hcons.clean hcons.clean hm hr, hcrit,
    getAnswer_delivers _ _ _ _ _ _ hno hsize]
  rfl

/-- What a get that delivers nothing leaves behind, in a reachable state: the channel as the other
handles left it in a state `t`, and the handle and the buffer as they were; and after `ACH_OVERFLOW`
the frame chosen does not fit, and as long as nothing is put a buffer of its size gets it. -/
def Retriable (dbg : Bool) (cnt : ℕ) (hist : List (List UInt8)) (h : H) (s : Sys H) (size : ℕ)
    (opts : AchGetOpts) (res : GetResult) (chan' : AchChannel) (u : AchHeader) : Prop :=
  ∃ t gs, Steps dbg (· ≠ h) s gs t ∧ (opts.wait = false → t = s ∧ gs = []) ∧ u = t.shm ∧
    chan' = s.chan h ∧ res.bytes = [] ∧
    (res.status = .overflow → ∃ old, IsLeast (retained t.shm) old ∧
      let q := chosen t.shm.lastSeq old (s.chan h).seqNum opts
      let frame := (hist ++ gs).getD (q - 1) []
      res.frameSize = some frame.length ∧ size < frame.length ∧
        ∀ v size' abstime' ws', Steps dbg (· ≠ h) t [] v → frame.length ≤ size' →
          out (achGet (s.chan h) size' abstime' opts ws') dbg v.shm =
            .ok ((⟨if (s.chan h).seqNum + 1 < q then .missedFrame else .ok, frame,
              some frame.length⟩, { s.chan h with seqNum := q, nextIndex := q % cnt }), v.shm))

/-- **A get that delivers nothing changes nothing and can be repeated.** The first part is about any
block of memory and any waits: the handle's cursor and the buffer are as they were, and the block is
what the other parties made of it, but for the mutex. The second part is about reachable states. -/
theorem failed_get_retriable (dbg : Bool) :
    (∀ (shm : AchHeader) (chan : AchChannel) (size : ℕ) (abstime : Bool) (opts : AchGetOpts)
      (waits : List WaitEvent) (res : GetResult) (chan' : AchChannel) (t : AchHeader),
      heldByCaller shm.mutex = false → (∀ w ∈ waits, WaitEvent.Others w) →
      out (achGet chan size abstime opts waits) dbg shm = .ok ((res, chan'), t) →
      res.status ≠ .ok → res.status ≠ .missedFrame →
      res.bytes = [] ∧ chan'.seqNum = chan.seqNum ∧ chan'.nextIndex = chan.nextIndex ∧
        ∃ past m, past <+: waits ∧ t = setMutex m (advance past shm)) ∧
    ∀ (cnt frameSize : ℕ) (hist : List (List UInt8)) (s : Sys H) (h : H) (size : ℕ) (abstime : Bool)
      (opts : AchGetOpts) (ws : List WaitEvent) (fs : List (List UInt8)) (res : GetResult)
      (chan' : AchChannel) (u : AchHeader),
      Reachable dbg cnt frameSize hist s → 2 ≤ cnt → NoWrap cnt frameSize →
      (s.chan h).mapped = true → Waits dbg h s ws fs → hist.length + fs.length + 1 < 2 ^ 64 →
      out (achGet (s.chan h) size abstime opts ws) dbg s.shm = .ok ((res, chan'), u) →
      res.status ≠ .ok → res.status ≠ .missedFrame →
      Retriable dbg cnt hist h s size opts res chan' u := by
  constructor
  · intro shm chan size abstime opts waits res chan' t hmutex hws hout hok hmiss
    obtain ⟨past, hpast, hquiet, m, rfl, -⟩ :=
      (achGet_holds chan size abstime opts hws rfl hmutex dbg shm rfl).2 _ t hout
    obtain ⟨hbytes, hchan⟩ := hquiet hok hmiss
    obtain rfl : chan' = cancelledBy chan past := hchan
    exact ⟨hbytes, rfl, rfl, past, m, hpast, rfl⟩
  · intro cnt frameSize hist s h size abstime opts ws fs res chan' u hs hcnt hwrap hm hws hseq hout
      hok hmiss
    cases achGet_answered hs hcnt hwrap hm size abstime opts hws hseq with
    | blocked hw hon ho =>
      rw [ho] at hout
      simp at hout
    | timeout hsteps hw hran ho =>
      rw [ho] at hout
      obtain ⟨⟨rfl, rfl⟩, rfl⟩ : (GetResult.bare .timeout = res ∧ s.chan h = chan') ∧ _ = u := by
        simpa using hout
      refine ⟨_, _, hsteps, fun hf => ?_, rfl, rfl, rfl, fun ho => ?_⟩
      · rw [hw] at hf
        simp at hf
      · simp [GetResult.bare] at ho
    | answer hsteps hlen hnow hlast hold hnew hwait ho =>
      rename_i t gs old
      rw [ho] at hout
      obtain ⟨hres, rfl⟩ : getAnswer (hist ++ gs) old cnt size opts (s.chan h) = (res, chan') ∧
          t.shm = u := by
        simpa using hout
      have hchan : t.chan h = s.chan h := hsteps.chan_other
      by_cases hno : NoFrame opts (hist ++ gs).length (s.chan h).seqNum
      · rw [getAnswer_noFrame _ _ _ _ _ _ hno, Prod.mk.injEq] at hres
        obtain ⟨rfl, rfl⟩ := hres
        exact ⟨t, gs, hsteps, hnow, rfl, rfl, rfl, fun ho => by simp [GetResult.bare] at ho⟩
      rcases Nat.lt_or_ge size (chosenFrame (hist ++ gs) old opts (s.chan h)).length with
        hbig | hfit
      · rw [getAnswer_overflow _ _ _ _ _ _ hno hbig, Prod.mk.injEq] at hres
        obtain ⟨rfl, rfl⟩ := hres
        have hpos : t.shm.lastSeq ≠ 0 := fun h0 => hno (Or.inl (by rw [← hlast, h0]))
        refine ⟨t, gs, hsteps, hnow, rfl, rfl, rfl, fun _ => ⟨old, hold hpos, ?_⟩⟩
        rw [hlast]
        refine ⟨rfl, hbig, fun v size' abstime' ws' hv hsize => ?_⟩
        exact achGet_retry (hs.steps hsteps) hcnt hwrap hlen hm hchan hold
          (fun hw => (hnew hw).seqNum_ne) hno hv hsize abstime' ws'
      · rw [getAnswer_delivers _ _ _ _ _ _ hno hfit, Prod.mk.injEq] at hres
        obtain ⟨rfl, rfl⟩ := hres
        simp only at hok hmiss
        split_ifs at hok hmiss <;> simp_all

/-- A frame of two bytes and a buffer of one. -/
theorem failed_get_retriable_sample : ∃ (t : Sys Bool) (hist : List (List UInt8)) (res : GetResult)
    (chan' : AchChannel) (u : AchHeader), Reachable true 2 3 hist t ∧ res.status = .overflow ∧
      out (achGet (t.chan true) 1 false ⟨false, false, false⟩ []) true t.shm =
        .ok ((res, chan'), u) ∧
      Retriable true 2 hist true t 1 ⟨false, false, false⟩ res chan' u ∧ res.bytes = [] := by
  have hval : ((sampleOpened.call true false (.put (some fun _ => 7) 2)).bind fun p =>
      (out (achGet (p.2.chan true) 1 false ⟨false, false, false⟩ []) true p.2.shm).bind fun q =>
        .ok (q.1.1.status, (p.2.chan true).mapped, heldByCaller p.2.shm.mutex)) =
          .ok (.overflow, true, false) := by
    decide +kernel
  obtain ⟨⟨r, t⟩, hcall, hval⟩ := Outcome.bind_eq_ok.mp hval
  obtain ⟨⟨⟨res, chan'⟩, u⟩, hget, hval⟩ := Outcome.bind_eq_ok.mp hval
  obtain ⟨hst, hm, hheld⟩ : res.status = .overflow ∧ (t.chan true).mapped = true ∧
      heldByCaller t.shm.mutex = false := by
    simpa using hval
  have hreach := (reachable_sampleOpened true).step (.call (h := false) rfl hcall)
  have hlen := length_frames false (.put (some fun _ => 7) 2) r
  have hok : res.status ≠ .ok ∧ res.status ≠ .missedFrame := by simp [hst]
  refine ⟨t, _, res, chan', u, hreach, hst, hget, ?_, ?_⟩
  · refine (failed_get_retriable true).2 2 3 _ t true 1 false _ [] [] res chan' u hreach
      (by decide) (by decide) hm (.nil t) ?_ hget hok.1 hok.2
    simp only [List.nil_append, List.length_nil, Call.isPut, if_true] at hlen ⊢
    omega
  · exact ((failed_get_retriable (H := Bool) true).1 t.shm _ 1 false _ [] res chan' u hheld
      (by simp) hget hok.1 hok.2).1

end Ach.Channel.Answer
