import Ach.Channel.Runs
import Mathlib.Data.List.Dedup
import Mathlib.Data.List.Sort

/-! # The delivery contract

Number the frames accepted in a run `1, 2, …` in lock order. In a run of puts, gets and flushes by
any number of handles (`Ach.Channel.Runs`) each handle has a position: the number of the frame it
got last, or the number of the newest frame at its last flush, or `0`. Its cursor is that position
(`Tracked`), and what a get delivers is determined by it (`StepOk`). Everything the contract
promises about whole runs follows from what it promises about one step, by induction over the run.
-/

namespace Ach.Channel.Delivery

open Ach.Lib.Run Ach.Lib.Word Ach.Lib.Suffix
open Ach.Channel.Types Ach.Channel.Lock Ach.Channel.Put Ach.Channel.Get Ach.Channel.Create
open Ach.Channel.Invariant Ach.Channel.PutSpec Ach.Channel.Frame Ach.Channel.GetSpec
open Ach.Channel.History Ach.Channel.Runs

variable {H : Type} [DecidableEq H]

/-! ### What a run delivered -/

/-- The number and the bytes of the frame delivered to the handle, if one was. -/
def delivery (h : H) (e : Event H) : Option (ℕ × List UInt8) :=
  match e.reply with
  | .get res chan =>
    if e.handle = h ∧ (res.status = .ok ∨ res.status = .missedFrame) then
      some (chan.seqNum, res.bytes)
    else none
  | _ => none

/-- The frames delivered to the handle, in order. -/
def received (h : H) (evs : List (Event H)) : List (ℕ × List UInt8) := evs.filterMap (delivery h)

/-- The call was made with `ACH_O_COPY`. -/
def Copies (e : Event H) : Prop :=
  match e.call with
  | .get _ _ opts _ => opts.copy = true
  | _ => False

/-- The call returned `ACH_MISSED_FRAME`. -/
def Missed (e : Event H) : Prop :=
  match e.reply with
  | .get res _ => res.status = .missedFrame
  | _ => False

/-- The position of a handle after one more event, of which `n` frames had been accepted before. -/
def nextPosition (h : H) (n p : ℕ) (e : Event H) : ℕ :=
  match e.reply with
  | .get _ _ => (delivery h e).elim p Prod.fst
  | .flush .ok _ => if e.handle = h then n else p
  | _ => p

/-- The number of frames accepted and the position of a handle after one more event. -/
def advance (h : H) (p : ℕ × ℕ) (e : Event H) : ℕ × ℕ :=
  (p.1 + e.frames.length, nextPosition h p.1 p.2 e)

/-- **The position of a handle:** the number it got last, or the number of the newest frame at its
last flush, or `0`. -/
def position (h : H) (evs : List (Event H)) : ℕ := (evs.foldl (advance h) (0, 0)).2

omit [DecidableEq H] in
theorem puts_concat (evs : List (Event H)) (e : Event H) :
    puts (evs ++ [e]) = puts evs ++ e.frames := by
  simp [puts]

theorem foldl_advance (h : H) (evs : List (Event H)) :
    evs.foldl (advance h) (0, 0) = ((puts evs).length, position h evs) := by
  induction evs using List.reverseRecOn with
  | nil => rfl
  | append_singleton evs e ih =>
    rw [position, puts_concat, List.foldl_concat, ih, List.length_append]
    rfl

theorem position_concat (h : H) (evs : List (Event H)) (e : Event H) :
    position h (evs ++ [e]) = nextPosition h (puts evs).length (position h evs) e := by
  rw [position, List.foldl_concat, foldl_advance]
  rfl

theorem received_concat (h : H) (evs : List (Event H)) (e : Event H) :
    received h (evs ++ [e]) = received h evs ++ (delivery h e).toList := by
  simp only [received, List.filterMap_append]
  cases hd : delivery h e <;> simp [hd]

/-- What is delivered to a handle it asked for. -/
theorem handle_of_delivery {h : H} {e : Event H} {d : ℕ × List UInt8}
    (hd : delivery h e = some d) : e.handle = h := by
  unfold delivery at hd
  split at hd
  · split_ifs at hd with hc
    exact hc.1
  · simp at hd

/-- What an event does to the position of a handle. -/
theorem nextPosition_cases (h : H) (n p : ℕ) (e : Event H) :
    (∃ d, delivery h e = some d ∧ nextPosition h n p e = d.1) ∨
      (delivery h e = none ∧ nextPosition h n p e = p) ∨
      (delivery h e = none ∧ nextPosition h n p e = n ∧ e.handle = h ∧
        ∃ chan, e.reply = .flush .ok chan) := by
  obtain ⟨g, c, r⟩ := e
  cases r with
  | put r shm => exact Or.inr (Or.inl ⟨rfl, rfl⟩)
  | get res chan =>
    cases hd : delivery h ⟨g, c, .get res chan⟩ with
    | none => exact Or.inr (Or.inl ⟨rfl, by simp [nextPosition, hd]⟩)
    | some d => exact Or.inl ⟨d, rfl, by simp [nextPosition, hd]⟩
  | flush r chan =>
    by_cases hr : r = .ok ∧ g = h
    · obtain ⟨rfl, rfl⟩ := hr
      exact Or.inr (Or.inr ⟨rfl, by simp [nextPosition], rfl, chan, rfl⟩)
    · refine Or.inr (Or.inl ⟨rfl, ?_⟩)
      unfold nextPosition
      cases r <;> simp_all

/-! ### From steps to runs -/

/-- **What one event promises:** a frame delivered to a handle is the frame with its number, is not
behind the handle's position, is at it only in a call with `ACH_O_COPY`, and the status says whether
a number was skipped; and a get says that there is no frame where there is none. -/
structure StepOk (pre : List (Event H)) (e : Event H) : Prop where
  pos : ∀ h d, delivery h e = some d → 1 ≤ d.1 ∧ d.1 ≤ (puts pre).length
  bytes : ∀ h d, delivery h e = some d → d.2 = (puts pre).getD (d.1 - 1) []
  mono : ∀ h d, delivery h e = some d → position h pre ≤ d.1
  copies : ∀ h d, delivery h e = some d → d.1 = position h pre → Copies e
  missed : ∀ h d, delivery h e = some d → (Missed e ↔ position h pre + 1 < d.1)
  kind : ∀ r chan, e.reply = .flush r chan → e.call = .flush
  stale : ∀ n abstime opts ws res chan, e.call = .get n abstime opts ws → e.reply = .get res chan →
    (res.status = .staleFrames ↔ res.status ≠ .canceled ∧ opts.wait = false ∧
      NoFrame opts (puts pre).length (position e.handle pre))

/-- Every event of the run keeps its promise. -/
def Sound (evs : List (Event H)) : Prop := ∀ pre e post, evs = pre ++ e :: post → StepOk pre e

theorem Sound.concat {evs : List (Event H)} {e : Event H} (h : Sound evs) (he : StepOk evs e) :
    Sound (evs ++ [e]) := by
  intro pre e' post heq
  rcases List.eq_nil_or_concat post with rfl | ⟨post', b, rfl⟩
  · obtain ⟨rfl, hcons⟩ := List.append_inj' heq rfl
    obtain rfl : e = e' := by simpa using hcons
    exact he
  · rw [List.concat_eq_append, ← List.cons_append, ← List.append_assoc] at heq
    exact h pre e' post' (List.append_inj' heq rfl).1

theorem Sound.init {evs : List (Event H)} {e : Event H} (h : Sound (evs ++ [e])) :
    Sound evs ∧ StepOk evs e := by
  refine ⟨fun pre e' post heq => h pre e' (post ++ [e]) ?_, h evs e [] rfl⟩
  rw [heq, List.append_assoc, List.cons_append]

/-- A position is the number of a frame accepted, and no delivery is beyond it. -/
theorem Sound.position_bounds (h : H) {evs : List (Event H)} (hs : Sound evs) :
    position h evs ≤ (puts evs).length ∧ ∀ d ∈ received h evs, d.1 ≤ position h evs := by
  induction evs using List.reverseRecOn with
  | nil => exact ⟨le_rfl, by simp [received]⟩
  | append_singleton evs e ih =>
    obtain ⟨hs, he⟩ := hs.init
    obtain ⟨hle, hall⟩ := ih hs
    rw [position_concat, puts_concat, List.length_append, received_concat]
    rcases nextPosition_cases h (puts evs).length (position h evs) e with
      ⟨d, hd, hp⟩ | ⟨hd, hp⟩ | ⟨hd, hp, -⟩
    · have hpos := he.pos h d hd
      have hmono := he.mono h d hd
      rw [hp, hd]
      refine ⟨by omega, fun d' hd' => ?_⟩
      rcases List.mem_append.mp hd' with hd' | hd'
      · exact (hall d' hd').trans hmono
      · obtain rfl : d' = d := by simpa using hd'
        exact le_rfl
    · rw [hp, hd]
      exact ⟨by omega, by simpa using hall⟩
    · rw [hp, hd]
      refine ⟨by omega, fun d' hd' => ?_⟩
      have := hall d' (by simpa using hd')
      omega

/-- The numbers a handle gets never decrease. -/
theorem Sound.ordered (h : H) {evs : List (Event H)} (hs : Sound evs) :
    (received h evs).Pairwise fun a b => a.1 ≤ b.1 := by
  induction evs using List.reverseRecOn with
  | nil => exact List.Pairwise.nil
  | append_singleton evs e ih =>
    obtain ⟨hs, he⟩ := hs.init
    rw [received_concat, List.pairwise_append]
    refine ⟨ih hs, by cases delivery h e <;> simp, fun d hd d' hd' => ?_⟩
    have hd' : delivery h e = some d' := by simpa using hd'
    exact ((hs.position_bounds h).2 d hd).trans (he.mono h d' hd')

/-- What a handle got is what was put. -/
theorem Sound.exact_bytes (h : H) {evs : List (Event H)} (hs : Sound evs) :
    ∀ d ∈ received h evs, 1 ≤ d.1 ∧ d.2 = (puts evs).getD (d.1 - 1) [] := by
  induction evs using List.reverseRecOn with
  | nil => simp [received]
  | append_singleton evs e ih =>
    obtain ⟨hs, he⟩ := hs.init
    intro d hd
    have hlt : 1 ≤ d.1 ∧ d.1 - 1 < (puts evs).length ∧ d.2 = (puts evs).getD (d.1 - 1) [] := by
      rw [received_concat] at hd
      rcases List.mem_append.mp hd with hd | hd
      · have hb := hs.position_bounds h
        have hle := hb.2 d hd
        obtain ⟨hpos, hbytes⟩ := ih hs d hd
        exact ⟨hpos, by omega, hbytes⟩
      · have hd : delivery h e = some d := by simpa using hd
        obtain ⟨hpos, hle⟩ := he.pos h d hd
        exact ⟨hpos, by omega, he.bytes h d hd⟩
    refine ⟨hlt.1, ?_⟩
    rw [hlt.2.2, puts_concat, List.getD_append _ _ _ _ hlt.2.1]

/-- A frame delivered was put. -/
theorem Sound.mem_puts (h : H) {evs : List (Event H)} (hs : Sound evs) {d : ℕ × List UInt8}
    (hd : d ∈ received h evs) : d.2 ∈ puts evs := by
  obtain ⟨hpos, hbytes⟩ := hs.exact_bytes h d hd
  have hle := (hs.position_bounds h).2 d hd
  have hmax := (hs.position_bounds h).1
  rw [hbytes, List.getD_eq_getElem _ _ (by omega)]
  exact List.getElem_mem _

/-- A handle that never flushes and never misses a frame has got every number up to its position. -/
theorem Sound.complete (h : H) {evs : List (Event H)} (hs : Sound evs)
    (hflush : ∀ e ∈ evs, e.handle = h → e.call ≠ .flush)
    (hmiss : ∀ e ∈ evs, e.handle = h → ¬ Missed e) :
    ∀ n, 1 ≤ n → n ≤ position h evs → n ∈ (received h evs).map Prod.fst := by
  induction evs using List.reverseRecOn with
  | nil =>
    intro n h1 h2
    simp [position] at h2
    omega
  | append_singleton evs e ih =>
    obtain ⟨hs, he⟩ := hs.init
    intro n h1 h2
    have hall := ih hs (fun e he => hflush e (List.mem_append_left _ he))
      (fun e he => hmiss e (List.mem_append_left _ he))
    have hmem : e ∈ evs ++ [e] := by simp
    rw [position_concat] at h2
    rw [received_concat, List.map_append, List.mem_append]
    rcases nextPosition_cases h (puts evs).length (position h evs) e with
      ⟨d, hd, hp⟩ | ⟨hd, hp⟩ | ⟨hd, hp, hh, chan, hr⟩
    · rw [hp] at h2
      have hh := handle_of_delivery hd
      have hgap := mt (he.missed h d hd).mpr (hmiss e hmem hh)
      rcases Nat.lt_or_ge (position h evs) n with hlt | hge
      · exact Or.inr (by simp [hd]; omega)
      · exact Or.inl (hall n h1 hge)
    · rw [hp] at h2
      exact Or.inl (hall n h1 h2)
    · exact absurd (he.kind _ _ hr) (hflush e hmem hh)

/-! ### One call -/

/-- **The run so far explains the system:** the channel represents the frames accepted, and each
cursor is the position of its handle. -/
structure Tracked (cnt size : ℕ) (evs : List (Event H)) (s : Sys H) : Prop where
  good : Good cnt size (puts evs) s
  cursor : ∀ h, Cursor (puts evs).length cnt (s.chan h)
  seqNum : ∀ h, (s.chan h).seqNum = position h evs

section
variable {cnt size : ℕ} {evs : List (Event H)} {s : Sys H}

/-- An event that delivers nothing promises little. -/
theorem StepOk.of_none {e : Event H} (hd : ∀ h, delivery h e = none)
    (hk : ∀ r chan, e.reply = .flush r chan → e.call = .flush)
    (hg : ∀ n abstime opts ws res chan, e.call = .get n abstime opts ws →
      e.reply = .get res chan → (res.status = .staleFrames ↔ res.status ≠ .canceled ∧
        opts.wait = false ∧ NoFrame opts (puts evs).length (position e.handle evs))) :
    StepOk evs e :=
  ⟨fun h d hs => by simp [hd h] at hs, fun h d hs => by simp [hd h] at hs,
    fun h d hs => by simp [hd h] at hs, fun h d hs => by simp [hd h] at hs,
    fun h d hs => by simp [hd h] at hs, hk, hg⟩

/-- The position of the other handles stays. -/
theorem nextPosition_other {h g : H} (hne : g ≠ h) (n p : ℕ) (c : Call) (r : Reply) :
    nextPosition g n p ⟨h, c, r⟩ = p := by
  have hne' : ¬ h = g := fun he => hne he.symm
  rcases nextPosition_cases g n p ⟨h, c, r⟩ with ⟨d, hd, -⟩ | ⟨-, hp⟩ | ⟨-, -, hh, -⟩
  · unfold delivery at hd
    split at hd
    · simp [hne'] at hd
    · simp at hd
  · exact hp
  · exact absurd hh hne'

/-- A put. -/
theorem put_tracked (dbg : Bool) (hs : Tracked cnt size evs s) (hcnt : 2 ≤ cnt)
    (hseq : (puts evs).length + 1 < 2 ^ 64) (h : H) (buf : Option (ℕ → UInt8)) (len : ℕ) :
    ∃ r s', s.call dbg h (.put buf len) = .ok (r, s') ∧
      Tracked cnt size (evs ++ [⟨h, .put buf len, r⟩]) s' ∧ StepOk evs ⟨h, .put buf len, r⟩ := by
  obtain ⟨r, shm', hcall⟩ : ∃ r shm', s.call dbg h (.put buf len) =
      .ok (.put r shm', { s with shm := shm' }) := by
    by_cases ha : Accepts size ⟨s.chan h, buf, len⟩
    · obtain ⟨hbuf, hpos, hlen⟩ := ha
      obtain ⟨buf, rfl⟩ := Option.isSome_iff_exists.mp hbuf
      obtain ⟨s', hcall, -⟩ := put_good dbg hs.good (by omega) (fun _ => hseq) h buf hpos hlen
      obtain ⟨p, hp, hr⟩ := Outcome.bind_eq_ok.mp hcall
      exact ⟨p.1, p.2, by rw [Sys.call, hp]; rfl⟩
    · obtain ⟨r, hcall, -⟩ := put_rejected dbg hs.good h ha
      exact ⟨r, s.shm, hcall⟩
  have hgood := call_good hs.good (by omega) (fun _ => by simpa [Call.isPut] using hseq) hcall
  refine ⟨_, _, hcall, ⟨by rw [puts_concat]; exact hgood, fun g => ?_, fun g => ?_⟩,
    StepOk.of_none (fun _ => rfl) (by simp) (by simp)⟩
  · rw [puts_concat, List.length_append]
    exact (hs.cursor g).mono (by omega)
  · rw [position_concat]
    exact hs.seqNum g

/-- A get that delivers nothing: the cursor stays. -/
theorem refused_tracked (hs : Tracked cnt size evs s) {h : H} {n : ℕ} {abstime : Bool}
    {opts : AchGetOpts} {ws : List WaitEnd} {res : GetResult} {chan' : AchChannel}
    (hno : Refuses (puts evs) n opts (s.chan h) res chan')
    (hgood : Good cnt size (puts evs) ⟨s.shm, Function.update s.chan h chan'⟩) :
    Tracked cnt size (evs ++ [⟨h, .get n abstime opts ws, .get res chan'⟩])
        ⟨s.shm, Function.update s.chan h chan'⟩ ∧
      StepOk evs ⟨h, .get n abstime opts ws, .get res chan'⟩ := by
  have hframes : puts (evs ++ [⟨h, .get n abstime opts ws, .get res chan'⟩]) = puts evs := by
    rw [puts_concat]
    exact List.append_nil _
  have hnone : ∀ g, delivery g ⟨h, .get n abstime opts ws, .get res chan'⟩ = none := fun g => by
    simp [delivery, hno.status]
  have hsame : Function.update s.chan h chan' = s.chan := by
    rw [hno.cursor]
    exact Function.update_eq_self h s.chan
  refine ⟨⟨by rw [hframes]; exact hgood, fun g => ?_, fun g => ?_⟩,
    StepOk.of_none hnone (by simp) fun n' abstime' opts' ws' res' chan'' hc hr => ?_⟩
  · rw [hframes, hsame]
    exact hs.cursor g
  · rw [position_concat, hsame, hs.seqNum g]
    simp [nextPosition, hnone]
  · obtain ⟨-, -, rfl, -⟩ := Call.get.inj hc
    obtain ⟨rfl, -⟩ := Reply.get.inj hr
    rw [← hs.seqNum h]
    exact hno.stale

/-- A get that delivers: the cursor moves to the number delivered. -/
theorem delivered_tracked (hs : Tracked cnt size evs s) {h : H} {n : ℕ} {abstime : Bool}
    {opts : AchGetOpts} {ws : List WaitEnd} {res : GetResult} {chan' : AchChannel}
    (hdel : Delivers (puts evs) cnt n opts (s.chan h) res chan')
    (hgood : Good cnt size (puts evs) ⟨s.shm, Function.update s.chan h chan'⟩) :
    Tracked cnt size (evs ++ [⟨h, .get n abstime opts ws, .get res chan'⟩])
        ⟨s.shm, Function.update s.chan h chan'⟩ ∧
      StepOk evs ⟨h, .get n abstime opts ws, .get res chan'⟩ := by
  have hframes : puts (evs ++ [⟨h, .get n abstime opts ws, .get res chan'⟩]) = puts evs := by
    rw [puts_concat]
    exact List.append_nil _
  have hst : res.status = .ok ∨ res.status = .missedFrame := by
    rw [hdel.status]
    split_ifs <;> simp
  have hself : delivery h ⟨h, .get n abstime opts ws, .get res chan'⟩ =
      some (chan'.seqNum, res.bytes) := by
    simp [delivery, hst]
  have honly : ∀ g d, delivery g ⟨h, .get n abstime opts ws, .get res chan'⟩ = some d →
      g = h ∧ d = (chan'.seqNum, res.bytes) := fun g d hd => by
    unfold delivery at hd
    simp only at hd
    split_ifs at hd with hc
    exact ⟨hc.1.symm, (Option.some.inj hd).symm⟩
  have hseqh := hs.seqNum h
  have hfresh : ¬ NoFrame opts (puts evs).length (s.chan h).seqNum := by
    have hpos := hdel.pos
    have hle := hdel.le
    have hmono := hdel.mono
    rintro (h0 | ⟨hlast, hcopy⟩)
    · omega
    · rw [hdel.repeated (by omega)] at hcopy
      simp at hcopy
  refine ⟨⟨by rw [hframes]; exact hgood, fun g => ?_, fun g => ?_⟩,
    ⟨?_, ?_, ?_, ?_, ?_, by simp, fun n' abstime' opts' ws' res' chan'' hc hr => ?_⟩⟩
  · rw [hframes]
    show Cursor _ _ (Function.update s.chan h chan' g)
    by_cases hg : g = h
    · subst hg
      rw [Function.update_self, hdel.cursor]
      exact ⟨hdel.le, Or.inl rfl⟩
    · rw [Function.update_of_ne hg]
      exact hs.cursor g
  · rw [position_concat]
    show (Function.update s.chan h chan' g).seqNum = _
    by_cases hg : g = h
    · subst hg
      rw [Function.update_self]
      simp [nextPosition, hself]
    · rw [Function.update_of_ne hg, nextPosition_other hg, hs.seqNum g]
  rotate_left 5
  · obtain ⟨-, -, rfl, -⟩ := Call.get.inj hc
    obtain ⟨rfl, -⟩ := Reply.get.inj hr
    rw [← hs.seqNum h]
    exact iff_of_false (by rcases hst with he | he <;> simp [he]) fun hno => hfresh hno.2.2
  all_goals
    intro g d hd
    obtain ⟨rfl, rfl⟩ := honly g d hd
    simp only
  · exact ⟨hdel.pos, hdel.le⟩
  · exact hdel.bytes
  · rw [← hseqh]
    exact hdel.mono
  · rw [← hseqh]
    exact hdel.repeated
  · rw [← hseqh]
    unfold Missed
    simp only
    rw [hdel.status]
    split_ifs with hm <;> simp [hm]

/-- A get. -/
theorem get_tracked (dbg : Bool) (hs : Tracked cnt size evs s) (hcnt : 2 ≤ cnt)
    (hseq : (puts evs).length + 1 < 2 ^ 64) (h : H) (n : ℕ) (abstime : Bool) (opts : AchGetOpts)
    (ws : List WaitEnd) :
    s.call dbg h (.get n abstime opts ws) = .block ∨
      ∃ r s', s.call dbg h (.get n abstime opts ws) = .ok (r, s') ∧
        Tracked cnt size (evs ++ [⟨h, .get n abstime opts ws, r⟩]) s' ∧
        StepOk evs ⟨h, .get n abstime opts ws, r⟩ := by
  obtain ⟨kept, hinv⟩ := hs.good.inv
  have hic := hs.good.indexCnt
  have hcur := hs.cursor h
  rcases achGet_spec dbg n abstime opts ws hinv hs.good.clean (hs.good.mapped h)
    (by rw [hic]; exact hcur) (Or.inr (by rw [hic]; exact hcur.nextIndex_lt hcnt)) hseq with
    hb | ⟨res, chan', hout, hres⟩
  · exact Or.inl (by rw [Sys.call, hb]; rfl)
  · have hcall : s.call dbg h (.get n abstime opts ws) =
        .ok (.get res chan', ⟨s.shm, Function.update s.chan h chan'⟩) := by
      rw [Sys.call, hout]
      rfl
    have hgood := call_good hs.good (by omega) (fun _ => by simp [Call.isPut]; omega) hcall
    rw [show Event.frames (⟨h, .get n abstime opts ws, .get res chan'⟩ : Event H) = [] from rfl,
      List.append_nil] at hgood
    refine Or.inr ⟨_, _, hcall, ?_⟩
    rcases hres with hno | hdel
    · exact refused_tracked hs hno hgood
    · rw [hic] at hdel
      exact delivered_tracked hs hdel hgood

/-- A flush. -/
theorem flush_tracked (dbg : Bool) (hs : Tracked cnt size evs s) (hcnt : 2 ≤ cnt)
    (hseq : (puts evs).length + 1 < 2 ^ 64) (h : H) :
    ∃ r s', s.call dbg h .flush = .ok (r, s') ∧ Tracked cnt size (evs ++ [⟨h, .flush, r⟩]) s' ∧
      StepOk evs ⟨h, .flush, r⟩ := by
  obtain ⟨kept, hinv⟩ := hs.good.inv
  have hic := hs.good.indexCnt
  obtain ⟨r, chan', hout, hres⟩ := achFlush_spec dbg hinv.toRep hs.good.clean (hs.good.mapped h)
  have hcall : s.call dbg h .flush =
      .ok (.flush r chan', ⟨s.shm, Function.update s.chan h chan'⟩) := by
    rw [Sys.call, hout]; rfl
  have hgood := call_good hs.good (by omega) (fun _ => by simp [Call.isPut]; omega) hcall
  have hframes : puts (evs ++ [⟨h, .flush, .flush r chan'⟩]) = puts evs := by
    rw [puts_concat]; exact List.append_nil _
  rw [show Event.frames (⟨h, .flush, .flush r chan'⟩ : Event H) = [] from rfl, List.append_nil]
    at hgood
  refine ⟨_, _, hcall, ⟨by rw [hframes]; exact hgood, fun g => ?_, fun g => ?_⟩,
    StepOk.of_none (fun _ => rfl) (by simp) (by simp)⟩
  · rw [hframes]
    show Cursor _ _ (Function.update s.chan h chan' g)
    by_cases hg : g = h
    · subst hg
      rw [Function.update_self]
      rcases hres with ⟨-, rfl⟩ | ⟨-, rfl⟩
      · rw [Nat.mod_eq_of_lt (by omega : (puts evs).length < 2 ^ 64)]
        exact ⟨le_rfl, Or.inl (by rw [← hic])⟩
      · exact hs.cursor g
    · rw [Function.update_of_ne hg]; exact hs.cursor g
  · rw [position_concat]
    show (Function.update s.chan h chan' g).seqNum = _
    by_cases hg : g = h
    · subst hg
      rw [Function.update_self]
      rcases hres with ⟨rfl, rfl⟩ | ⟨rfl, rfl⟩
      · rw [Nat.mod_eq_of_lt (by omega : (puts evs).length < 2 ^ 64)]
        simp [nextPosition]
      · rw [hs.seqNum g]; rfl
    · rw [Function.update_of_ne hg, nextPosition_other hg, hs.seqNum g]

/-- **The step lemma.** A call blocks, or returns and keeps its promise. -/
theorem call_tracked (dbg : Bool) (hs : Tracked cnt size evs s) (hcnt : 2 ≤ cnt)
    (hseq : (puts evs).length + 1 < 2 ^ 64) (h : H) (c : Call) :
    s.call dbg h c = .block ∨ ∃ r s', s.call dbg h c = .ok (r, s') ∧
      Tracked cnt size (evs ++ [⟨h, c, r⟩]) s' ∧ StepOk evs ⟨h, c, r⟩ := by
  cases c with
  | put buf len => exact Or.inr (put_tracked dbg hs hcnt hseq h buf len)
  | get n abstime opts ws => exact get_tracked dbg hs hcnt hseq h n abstime opts ws
  | flush => exact Or.inr (flush_tracked dbg hs hcnt hseq h)

/-- A frame put is not longer than the data. -/
theorem frames_le {dbg : Bool} {hist : List (List UInt8)} {s' : Sys H} {h : H} {c : Call}
    {rep : Reply} (hs : Good cnt size hist s) (hcall : s.call dbg h c = .ok (rep, s'))
    {f : List UInt8} (hf : f ∈ Event.frames (⟨h, c, rep⟩ : Event H)) : f.length ≤ size := by
  unfold Event.frames at hf
  split at hf
  · rename_i buf len shm hc hrep
    obtain rfl : c = .put (some buf) len := hc
    obtain rfl : rep = .put .ok shm := hrep
    obtain rfl : f = frameOf buf len := by simpa using hf
    by_cases ha : Accepts size ⟨s.chan h, some buf, len⟩
    · simpa [frameOf] using ha.2.2
    · obtain ⟨r, hrej, hr⟩ := put_rejected dbg hs h ha
      rw [hrej, Outcome.ok.injEq, Prod.mk.injEq, Reply.put.injEq] at hcall
      obtain ⟨⟨rfl, -⟩, -⟩ := hcall
      simp at hr
  · simp at hf

/-- What a call that returned keeps. -/
theorem call_keeps {dbg : Bool} {s' : Sys H} {h : H} {c : Call} {rep : Reply}
    (hs : Tracked cnt size evs s) (hsound : Sound evs) (hsmall : ∀ f ∈ puts evs, f.length ≤ size)
    (hcnt : 2 ≤ cnt) (hseq : (puts evs).length + 1 < 2 ^ 64)
    (hcall : s.call dbg h c = .ok (rep, s')) :
    Tracked cnt size (evs ++ [⟨h, c, rep⟩]) s' ∧ Sound (evs ++ [⟨h, c, rep⟩]) ∧
      ∀ f ∈ puts (evs ++ [⟨h, c, rep⟩]), f.length ≤ size := by
  rcases call_tracked dbg hs hcnt hseq h c with hb | ⟨rep', s₁, hcall', htracked, hok⟩
  · rw [hb] at hcall
    simp at hcall
  · obtain ⟨rfl, rfl⟩ : rep' = rep ∧ s₁ = s' := by simpa [hcall'] using hcall
    refine ⟨htracked, hsound.concat hok, fun f hf => ?_⟩
    rw [puts_concat, List.mem_append] at hf
    rcases hf with hf | hf
    · exact hsmall f hf
    · exact frames_le hs.good hcall hf

end

/-- A call puts at most one frame. -/
theorem length_puts_concat {G : Type} (evs : List (Event G)) (h : G) (c : Call) (rep : Reply) :
    (puts (evs ++ [⟨h, c, rep⟩])).length ≤ (puts evs).length + if c.isPut then 1 else 0 := by
  rw [puts_concat, List.length_append]
  exact Nat.add_le_add_left (length_frames h c rep) _

/-- A channel just created, with handles just opened. -/
theorem tracked_created {cnt size : ℕ} (hwrap : NoWrap cnt size)
    (hlen : createLen cnt size < 2 ^ 63) :
    Tracked cnt (wmul cnt size) []
      (⟨created cnt size, fun _ => openedChan (created cnt size)⟩ : Sys H) := by
  have hsum := createLen_eq hwrap
  have hmul : wmul cnt size = cnt * size := wmul_eq (by unfold NoWrap at hwrap; omega)
  have hcs : cnt < 2 ^ 63 := by unfold sizeofIndex at hsum; omega
  have hinv := inv_created hcs (show wmul cnt size < 2 ^ 63 by rw [hmul]; omega)
  exact ⟨⟨⟨0, hinv⟩, clean_created cnt size, rfl, rfl, fun _ => rfl⟩,
    fun _ => ⟨le_rfl, Or.inr ⟨rfl, rfl⟩⟩, fun _ => rfl⟩

/-! ### Whole runs -/

/-- **The run lemma.** -/
theorem run_tracked (dbg : Bool) {cnt size : ℕ} (hcnt : 2 ≤ cnt) :
    ∀ (calls : List (H × Call)) (pre : List (Event H)) (s : Sys H), Tracked cnt size pre s →
      Sound pre → (puts pre).length + putCount calls < 2 ^ 64 - 1 →
      run dbg calls s = .block ∨ ∃ evs s', run dbg calls s = .ok (evs, s') ∧
        Tracked cnt size (pre ++ evs) s' ∧ Sound (pre ++ evs) := by
  intro cs
  induction cs with
  | nil =>
    intro pre s hs hpre _
    exact Or.inr ⟨[], s, rfl, by simpa using hs, by simpa using hpre⟩
  | cons p cs ih =>
    intro pre s hs hpre hn
    obtain ⟨h, c⟩ := p
    have hcount := putCount_cons h c cs
    rcases call_tracked dbg hs hcnt (by omega) h c with hb | ⟨r, s₁, hcall, hs₁, hok⟩
    · exact Or.inl (by rw [run, hb]; rfl)
    have hlen := length_frames h c r
    rcases ih (pre ++ [⟨h, c, r⟩]) s₁ hs₁ (hpre.concat hok) (by
      rw [puts_concat, List.length_append]; omega) with hb | ⟨evs, s', hrun, hs', hsound⟩
    · exact Or.inl (by rw [run, hcall, Outcome.bind_ok, hb]; rfl)
    · refine Or.inr ⟨⟨h, c, r⟩ :: evs, s', by rw [run, hcall, Outcome.bind_ok, hrun]; rfl, ?_⟩
      rw [List.append_cons]
      exact ⟨hs', hsound⟩

/-- **The delivery contract** for one handle. -/
structure Contract (h : H) (evs : List (Event H)) : Prop where
  /-- Each frame delivered is the frame with its number. -/
  exact : ∀ pre e post d, evs = pre ++ e :: post → delivery h e = some d →
    1 ≤ d.1 ∧ d.1 ≤ (puts pre).length ∧ d.2 = (puts pre).getD (d.1 - 1) []
  /-- The numbers never decrease. -/
  ordered : (received h evs).Pairwise fun a b => a.1 ≤ b.1
  /-- A number repeats only in a call with `ACH_O_COPY`. -/
  repeated : ∀ pre e post d, evs = pre ++ e :: post → delivery h e = some d →
    d.1 ∈ (received h pre).map Prod.fst → Copies e
  /-- The status is `ACH_MISSED_FRAME` if and only if a number was skipped. -/
  missed : ∀ pre e post d, evs = pre ++ e :: post → delivery h e = some d →
    (Missed e ↔ ∃ n, position h pre < n ∧ n < d.1)
  /-- A handle that never flushes and never misses a frame got everything once, in order. -/
  complete : (∀ e ∈ evs, e.handle = h → e.call ≠ .flush) →
    (∀ e ∈ evs, e.handle = h → ¬ Missed e) →
    (received h evs).dedup =
      (List.range' 1 (position h evs)).map fun n => (n, (puts evs).getD (n - 1) [])
  /-- A get answers `ACH_STALE_FRAMES` if and only if it does not wait and there is no frame for it:
  none at all, or none after its position and it asks for no copy. -/
  stale : ∀ pre e post n abstime opts ws res chan, evs = pre ++ e :: post → e.handle = h →
    e.call = .get n abstime opts ws → e.reply = .get res chan →
    (res.status = .staleFrames ↔ res.status ≠ .canceled ∧ opts.wait = false ∧
      NoFrame opts (puts pre).length (position h pre))
  /-- Two handles see the frames they both get in the same order. -/
  common : ∀ g a b, a ≠ b → [a, b].Sublist (received h evs) → ¬ [b, a].Sublist (received g evs)

/-- Sorted numbers without repetitions that are all the numbers up to `p`. -/
theorem dedup_eq_range' {ns : List ℕ} {p : ℕ} (hord : ns.Pairwise (· ≤ ·))
    (hmem : ∀ n, n ∈ ns ↔ 1 ≤ n ∧ n ≤ p) : ns.dedup = List.range' 1 p := by
  have hlt : ns.dedup.Pairwise (· < ·) :=
    ((hord.sublist ns.dedup_sublist).and ns.nodup_dedup).imp fun h => lt_of_le_of_ne h.1 h.2
  refine hlt.eq_of_mem_iff List.pairwise_lt_range' fun n => ?_
  rw [List.mem_dedup, hmem, List.mem_range'_1]
  omega

theorem Sound.contract (h : H) {evs : List (Event H)} (hs : Sound evs) : Contract h evs := by
  have hord : ∀ (g : H) (a b : ℕ × List UInt8), [a, b].Sublist (received g evs) → a.1 ≤ b.1 :=
    fun g a b hab => by simpa using (hs.ordered g).sublist hab
  refine ⟨?_, hs.ordered h, ?_, ?_, ?_, ?_, ?_⟩
  · intro pre e post d he hd
    have hok := hs pre e post he
    exact ⟨(hok.pos h d hd).1, (hok.pos h d hd).2, hok.bytes h d hd⟩
  · intro pre e post d he hd hmem
    have hok := hs pre e post he
    have hpre : Sound pre := fun pre' e' post' he' =>
      hs pre' e' (post' ++ e :: post) (by rw [he, he']; simp)
    obtain ⟨d', hd', heq⟩ := List.mem_map.mp hmem
    have h1 := (hpre.position_bounds h).2 d' hd'
    have h2 := hok.mono h d hd
    exact hok.copies h d hd (by omega)
  · intro pre e post d he hd
    rw [(hs pre e post he).missed h d hd]
    constructor
    · intro hlt
      exact ⟨position h pre + 1, by omega, hlt⟩
    · rintro ⟨n, h1, h2⟩
      omega
  · intro hflush hmiss
    have hmap : received h evs = ((received h evs).map Prod.fst).map
        fun n => (n, (puts evs).getD (n - 1) []) := by
      rw [List.map_map]
      conv_lhs => rw [← List.map_id (received h evs)]
      exact List.map_congr_left fun d hd => Prod.ext rfl (hs.exact_bytes h d hd).2
    have hinj : Function.Injective fun n => (n, (puts evs).getD (n - 1) []) :=
      fun a b hab => (Prod.mk.inj hab).1
    rw [hmap, List.dedup_map_of_injective hinj, dedup_eq_range' (p := position h evs)
      (List.pairwise_map.mpr (hs.ordered h)) fun n => ⟨fun hn => ?_, fun hn => ?_⟩]
    · obtain ⟨d, hd, rfl⟩ := List.mem_map.mp hn
      exact ⟨(hs.exact_bytes h d hd).1, (hs.position_bounds h).2 d hd⟩
    · exact hs.complete h hflush hmiss n hn.1 hn.2
  · rintro pre e post n abstime opts ws res chan he rfl hc hr
    exact (hs pre e post he).stale n abstime opts ws res chan hc hr
  · intro g a b hne hab hba
    have h1 := hord h a b hab
    have h2 := hord g b a hba
    have ha := (hs.exact_bytes h a (hab.subset (by simp))).2
    have hb := (hs.exact_bytes h b (hab.subset (by simp))).2
    have heq : a.1 = b.1 := by omega
    exact hne (Prod.ext heq (by rw [ha, hb, heq]))

/-- Frames in a row, by their numbers. -/
theorem map_numbers (l : List (List UInt8)) {a p : ℕ} (h : a + p ≤ l.length) :
    ((List.range' (a + 1) p).map fun n => l.getD (n - 1) []) = (l.drop a).take p := by
  have hshift : List.range' (a + 1) p = (List.range' a p).map (· + 1) := List.range'_succ_left
  rw [hshift, List.map_map]
  exact map_getD_range' l [] h

/-- A handle that never asks for a copy gets no number twice. -/
theorem Sound.nodup (h : H) {evs : List (Event H)} (hs : Sound evs)
    (hcopy : ∀ e ∈ evs, e.handle = h → ¬ Copies e) : (received h evs).Nodup := by
  induction evs using List.reverseRecOn with
  | nil => exact List.nodup_nil
  | append_singleton evs e ih =>
    obtain ⟨hs, he⟩ := hs.init
    have hnodup := ih hs fun d hd => hcopy d (List.mem_append_left _ hd)
    rw [received_concat]
    cases hd : delivery h e with
    | none => simpa using hnodup
    | some d =>
      have hh := handle_of_delivery hd
      rw [Option.toList_some, List.nodup_append]
      refine ⟨hnodup, List.nodup_singleton d, fun a ha b hb hab => ?_⟩
      obtain rfl : b = d := by simpa using hb
      have h1 := (hs.position_bounds h).2 a ha
      have h2 := he.mono h b hd
      rw [hab] at h1
      exact hcopy e (by simp) hh (he.copies h b hd (by omega))

/-- **What a handle got**, copies aside, is a part of what was put, in the same order; and of what
was put after the first `n` frames, if it got none of them. -/
theorem Sound.sublist_drop (h : H) {evs : List (Event H)} (hs : Sound evs) {n : ℕ}
    (hle : n ≤ (puts evs).length) (hn : ∀ d ∈ received h evs, n < d.1) :
    ((received h evs).dedup.map Prod.snd).Sublist ((puts evs).drop n) := by
  have hbytes : ∀ d ∈ (received h evs).dedup, 1 ≤ d.1 ∧ d.2 = (puts evs).getD (d.1 - 1) [] :=
    fun d hd => hs.exact_bytes h d (List.mem_dedup.mp hd)
  have hmap : (received h evs).dedup.map Prod.snd =
      ((received h evs).dedup.map Prod.fst).map fun n => (puts evs).getD (n - 1) [] := by
    rw [List.map_map]
    exact List.map_congr_left fun d hd => (hbytes d hd).2
  have hnodup : ((received h evs).dedup.map Prod.fst).Nodup :=
    (List.nodup_dedup _).map_on fun a ha b hb hab =>
      Prod.ext hab (by rw [(hbytes a ha).2, (hbytes b hb).2, hab])
  have hnums : ((received h evs).dedup.map Prod.fst).Sublist
      (List.range' (n + 1) ((puts evs).length - n)) := by
    refine List.sublist_of_subperm_of_pairwise (r := (· ≤ ·))
      (List.subperm_of_subset hnodup fun m hm => ?_)
      (List.pairwise_map.mpr ((hs.ordered h).sublist (List.dedup_sublist _)))
      ((List.pairwise_lt_range' (s := n + 1)).imp Nat.le_of_lt)
    obtain ⟨d, hd, rfl⟩ := List.mem_map.mp hm
    have hd := List.mem_dedup.mp hd
    have h1 := hs.position_bounds h
    have h2 := h1.2 d hd
    have h3 := hn d hd
    rw [List.mem_range'_1]
    omega
  have hall : ((List.range' (n + 1) ((puts evs).length - n)).map fun m =>
      (puts evs).getD (m - 1) []) = (puts evs).drop n := by
    rw [map_numbers _ (by omega), List.take_of_length_le (by simp)]
  rw [hmap, ← hall]
  exact hnums.map _

/-- It is a part of all that was put. -/
theorem Sound.sublist (h : H) {evs : List (Event H)} (hs : Sound evs) :
    ((received h evs).dedup.map Prod.snd).Sublist (puts evs) :=
  hs.sublist_drop h (Nat.zero_le _) fun d hd => (hs.exact_bytes h d hd).1

/-- **A handle that never flushes and never misses a frame** got the first frames put, copies aside.
-/
theorem Sound.first (h : H) {evs : List (Event H)} (hs : Sound evs)
    (hflush : ∀ e ∈ evs, e.handle = h → e.call ≠ .flush)
    (hmiss : ∀ e ∈ evs, e.handle = h → ¬ Missed e) :
    (received h evs).dedup.map Prod.snd = (puts evs).take (position h evs) := by
  rw [(hs.contract h).complete hflush hmiss, List.map_map]
  exact map_numbers (puts evs) (by simpa using (hs.position_bounds h).1)

/-- **Delivery over whole runs.** On a channel `ach_create` made with at least two index entries,
with handles as `ach_open` makes them, every run of puts, gets and flushes either blocks in a get
that waits, or returns with the contract kept for every handle. -/
theorem run_delivers (dbg : Bool) {env : CreateEnv} {name : List UInt8} {cnt size : ℕ}
    {mapAnon : Bool} {shm : AchHeader}
    (hcreate : achCreate dbg env name cnt size mapAnon = .ok (.ok shm)) (hcnt : 2 ≤ cnt)
    (hwrap : NoWrap cnt size) (calls : List (H × Call)) (hn : putCount calls < 2 ^ 64 - 1) :
    run dbg calls ⟨shm, fun _ => openedChan shm⟩ = .block ∨
      ∃ evs s', run dbg calls ⟨shm, fun _ => openedChan shm⟩ = .ok (evs, s') ∧
        ∀ h, Contract h evs := by
  obtain ⟨rfl, hlen⟩ := achCreate_ok hcreate
  have hnil : Sound ([] : List (Event H)) := fun pre e post he => by simp at he
  rcases run_tracked dbg hcnt calls [] _ (tracked_created hwrap hlen) hnil
    (by simpa [puts] using hn) with hb | ⟨evs, s', hrun, -, hsound⟩
  · exact Or.inl hb
  · exact Or.inr ⟨evs, s', hrun, fun h => hsound.contract h⟩

theorem run_delivers_sample :
    ∃ evs s', run true sampleCalls sampleSys = .ok (evs, s') ∧ ∀ h, Contract h evs := by
  have hok : (run true sampleCalls sampleSys).isOk = true := by decide +kernel
  rcases run_delivers true
    (show achCreate true CreateEnv.allOk [97] 2 3 false = .ok (.ok (created 2 3)) by decide)
    (by decide) (by decide) sampleCalls (by decide) with hb | h
  · rw [show run true sampleCalls sampleSys = .block from hb] at hok
    simp [Outcome.isOk] at hok
  · exact h

end Ach.Channel.Delivery
