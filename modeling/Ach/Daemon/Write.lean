import Ach.Daemon.Io
import Ach.Lib.Loop
import Mathlib.Algebra.BigOperators.Group.Finset.Basic

/-! # Writing while a signal comes

`achd_write` looks at `cx.sig_received` at two places: when it tests the condition of its loop, and
after a `write(2)` that wrote nothing. The signal may come between any two of these looks, so a
round of the loop is given by what the two looks see and by what `write(2)` does. Behind the loop
stands a second one, `while( n < cnt);`, with an empty body.

A signal seen by the first look while bytes are left leads into the second loop, which never ends;
`achd_write` returns, and its result says whether all bytes were written, if and only if this does
not happen (`achdWrite_total_iff`). The calls of `Ach.Daemon.Io` are those during which the signal
comes while `write(2)` runs (`achdWrite_eq_loop`). -/

namespace Ach.Daemon.Write

open Ach.Lib.Loop Ach.Daemon.Io

/-- What a `write(2)` does. -/
inductive WriteRes where
  /-- It writes what it can, at most `k + 1` bytes. -/
  | wrote (k : ℕ)
  /-- It writes nothing and returns `-1`, or 0; `errno` is `EINTR` then, or not. -/
  | nothing (zero eintr : Bool)
  deriving DecidableEq, Repr

/-- One round of the loop: `cx.sig_received` when the condition is tested, what `write(2)` does, and
`cx.sig_received` when it is looked at after a call that wrote nothing. -/
structure Round where
  before : Bool
  res : WriteRes
  after : Bool
  deriving DecidableEq, Repr

/-- The bytes written in a round. -/
def Round.bytes (r : Round) : ℕ :=
  match r.res with
  | .wrote k => k + 1
  | .nothing _ _ => 0

/-- The call was interrupted. -/
def Round.Interrupted (r : Round) : Prop := ∃ zero, r.res = .nothing zero true

/-- Nothing in the round makes `achd_write` return: bytes were written, or the call was interrupted
and no signal is seen. -/
def Round.GoesOn (r : Round) : Prop := 0 < r.bytes ∨ r.Interrupted ∧ r.after = false

/-- The rounds after the first. -/
def later (rounds : ℕ → Round) : ℕ → Round := fun i => rounds (i + 1)

/-- The state of `achd_write`: the rounds to come, the count `n`, the bytes `write(2)` has taken,
and whether it is in the second loop. -/
structure Writing where
  rounds : ℕ → Round
  n : ℕ
  written : List UInt8
  second : Bool

/-- A round of either loop of `achd_write`, for the bytes `buf`: it goes on, or `achd_write` returns
and the bytes written are given too. -/
def writeStep (buf : List UInt8) (s : Writing) : Writing ⊕ ℤ × List UInt8 :=
  if s.second then if s.n < buf.length then .inl s else .inr (buf.length, s.written)
  else if (s.rounds 0).before = false ∧ s.n < buf.length then
    match (s.rounds 0).res with
    | .wrote k =>
      let r := min (k + 1) (buf.length - s.n)
      .inl { s with
        rounds := later s.rounds, n := s.n + r, written := s.written ++ (buf.drop s.n).take r }
    | .nothing zero eintr =>
      if eintr = true ∧ (s.rounds 0).after = false then .inl { s with rounds := later s.rounds }
      else .inr (if zero then 0 else -1, s.written)
  else .inl { s with second := true }

/-- **`achd_write`** of the bytes `buf` returns `r`, and `written` are the bytes `write(2)` took. -/
def Returns (rounds : ℕ → Round) (buf : List UInt8) (r : ℤ) (written : List UInt8) : Prop :=
  Loops (writeStep buf) ⟨rounds, 0, [], false⟩ (r, written)

/-- `write(2)` is not interrupted for ever. -/
def NotEndless (rounds : ℕ → Round) : Prop := ∀ i, ∃ j, i ≤ j ∧ ¬ (rounds j).Interrupted

/-- **The caller can tell.** `achd_write` returns, and it returns the count if and only if all bytes
were written, in order. -/
def TotalHonest (rounds : ℕ → Round) (buf : List UInt8) : Prop :=
  ∃ r written, Returns rounds buf r written ∧ written <+: buf ∧
    (r = (buf.length : ℤ) ↔ written = buf)

/-- **No signal at the loop condition**: as long as the rounds before go on and have not written all
of `cnt` bytes, the test of the loop condition does not see the signal. -/
def Unsignalled (rounds : ℕ → Round) (cnt : ℕ) : Prop :=
  ∀ i, (∀ j < i, (rounds j).GoesOn) → ∑ j ∈ Finset.range i, (rounds j).bytes < cnt →
    (rounds i).before = false

/-! ### The steps -/

section
variable {buf written : List UInt8} {rounds : ℕ → Round} {n : ℕ} {r : ℤ × List UInt8}

/-- All is written. -/
theorem loops_done_iff (hn : buf.length ≤ n) :
    Loops (writeStep buf) ⟨rounds, n, written, false⟩ r ↔ r = (↑buf.length, written) := by
  have hstep : writeStep buf ⟨rounds, n, written, false⟩ = .inl ⟨rounds, n, written, true⟩ := by
    simp [writeStep, Nat.not_lt.mpr hn]
  rw [loops_iff_of_goOn hstep]
  exact loops_iff_of_leave (by simp [writeStep, Nat.not_lt.mpr hn])

/-- The signal is seen at the loop condition: `achd_write` does not return. -/
theorem not_loops_signalled (hn : n < buf.length) (h : (rounds 0).before = true) :
    ¬ Loops (writeStep buf) ⟨rounds, n, written, false⟩ r := by
  have hstep : writeStep buf ⟨rounds, n, written, false⟩ = .inl ⟨rounds, n, written, true⟩ := by
    simp [writeStep, h]
  rw [loops_iff_of_goOn hstep]
  exact not_loops_of_fixed (by simp [writeStep, hn])

/-- A round that goes on. -/
theorem writeStep_goesOn (hn : n < buf.length) (h : (rounds 0).before = false)
    (hgo : (rounds 0).GoesOn) :
    writeStep buf ⟨rounds, n, buf.take n, false⟩ =
      .inl ⟨later rounds, min buf.length (n + (rounds 0).bytes),
        buf.take (min buf.length (n + (rounds 0).bytes)), false⟩ := by
  cases hr : (rounds 0).res with
  | wrote k =>
    have hsum : n + min (k + 1) (buf.length - n) = min buf.length (n + (k + 1)) := by omega
    have htake : buf.take n ++ (buf.drop n).take (min (k + 1) (buf.length - n)) =
        buf.take (min buf.length (n + (k + 1))) := by
      rw [← hsum, List.take_add]
    simp [writeStep, h, hn, hr, Round.bytes, hsum, htake]
  | nothing zero eintr =>
    have hb : (rounds 0).bytes = 0 := by simp [Round.bytes, hr]
    obtain ⟨⟨zero', hi⟩, ha⟩ := hgo.resolve_left (by omega)
    have he : eintr = true := by
      rw [hr] at hi
      exact (WriteRes.nothing.inj hi).2
    have hmin : min buf.length n = n := by omega
    simp [writeStep, h, hn, hr, hb, he, ha, hmin]

/-- A round that does not go on: `achd_write` returns that it failed. -/
theorem loops_stopped (written : List UInt8) (hn : n < buf.length)
    (h : (rounds 0).before = false) (hgo : ¬ (rounds 0).GoesOn) :
    ∃ r : ℤ, r ≤ 0 ∧ Loops (writeStep buf) ⟨rounds, n, written, false⟩ (r, written) := by
  cases hr : (rounds 0).res with
  | wrote k => exact absurd (Or.inl (by simp [Round.bytes, hr])) hgo
  | nothing zero eintr =>
    have hstop : ¬ (eintr = true ∧ (rounds 0).after = false) := by
      rintro ⟨rfl, ha⟩
      exact hgo (Or.inr ⟨⟨zero, hr⟩, ha⟩)
    refine ⟨if zero then 0 else -1, by split_ifs <;> omega, Loops.leave ?_⟩
    simp [writeStep, h, hn, hr, hstop]

end

/-! ### Whole runs -/

theorem NotEndless.later {rounds : ℕ → Round} (h : NotEndless rounds) :
    NotEndless (later rounds) := by
  intro i
  obtain ⟨j, hj, hn⟩ := h (i + 1)
  refine ⟨j - 1, by omega, ?_⟩
  have : j - 1 + 1 = j := by omega
  simpa [Write.later, this] using hn

theorem Unsignalled.head {rounds : ℕ → Round} {cnt : ℕ} (h : Unsignalled rounds cnt)
    (hpos : 0 < cnt) : (rounds 0).before = false :=
  h 0 (by simp) (by simpa using hpos)

theorem Unsignalled.later {rounds : ℕ → Round} {cnt : ℕ} (h : Unsignalled rounds cnt)
    (hgo : (rounds 0).GoesOn) : Unsignalled (later rounds) (cnt - (rounds 0).bytes) := by
  intro i hall hsum
  refine h (i + 1) (fun j hj => ?_) ?_
  · rcases Nat.eq_zero_or_pos j with rfl | hpos
    · exact hgo
    · have hj' : j - 1 + 1 = j := by omega
      have := hall (j - 1) (by omega)
      rwa [Write.later, hj'] at this
  · rw [Finset.sum_range_succ']
    have : ∑ j ∈ Finset.range i, (Write.later rounds j).bytes =
        ∑ j ∈ Finset.range i, (rounds (j + 1)).bytes := rfl
    omega

/-- **A run that no signal diverts ends**, by induction on the bytes left and on the rounds until
one that is not interrupted. -/
theorem loops_of_unsignalled (buf : List UInt8) : ∀ (m j : ℕ) (rounds : ℕ → Round) (n : ℕ),
    buf.length - n ≤ m → n ≤ buf.length → NotEndless rounds → ¬ (rounds j).Interrupted →
      Unsignalled rounds (buf.length - n) →
      ∃ r written, Loops (writeStep buf) ⟨rounds, n, buf.take n, false⟩ (r, written) ∧
        written <+: buf ∧ (r = (buf.length : ℤ) ↔ written = buf) := by
  intro m
  induction m with
  | zero =>
    intro j rounds n hm hn _ _ _
    obtain rfl : n = buf.length := by omega
    exact ⟨_, _, (loops_done_iff le_rfl).mpr rfl, List.take_prefix _ _, by simp⟩
  | succ m ihm =>
    intro j
    induction j using Nat.strong_induction_on with
    | _ j ihj =>
      intro rounds n hm hn hend hj hun
      rcases Nat.eq_or_lt_of_le hn with rfl | hlt
      · exact ⟨_, _, (loops_done_iff le_rfl).mpr rfl, List.take_prefix _ _, by simp⟩
      have hbefore := hun.head (by omega)
      by_cases hgo : (rounds 0).GoesOn
      swap
      · obtain ⟨r, hr, hloops⟩ := loops_stopped (buf.take n) hlt hbefore hgo
        refine ⟨r, _, hloops, List.take_prefix _ _, ?_⟩
        have hne : buf.take n ≠ buf := by
          rw [ne_eq, List.take_eq_self_iff]
          omega
        simp only [hne, iff_false]
        omega
      have hstep := writeStep_goesOn hlt hbefore hgo
      have hlater := hun.later hgo
      rw [show buf.length - n - (rounds 0).bytes =
        buf.length - min buf.length (n + (rounds 0).bytes) by omega] at hlater
      suffices hrest : ∃ r written, Loops (writeStep buf) ⟨later rounds,
          min buf.length (n + (rounds 0).bytes),
          buf.take (min buf.length (n + (rounds 0).bytes)), false⟩ (r, written) ∧
          written <+: buf ∧ (r = (buf.length : ℤ) ↔ written = buf) by
        obtain ⟨r, written, hloops, hrest⟩ := hrest
        exact ⟨r, written, hloops.goOn hstep, hrest⟩
      rcases hgo with hpos | ⟨hint, -⟩
      · -- bytes were written
        obtain ⟨k, -, hk⟩ := hend.later 0
        exact ihm k _ _ (by omega) (by omega) hend.later hk hlater
      · -- the call was interrupted, and the next one that is not is closer
        have hzero : (rounds 0).bytes = 0 := by
          obtain ⟨zero, hres⟩ := hint
          simp [Round.bytes, hres]
        have hj0 : j ≠ 0 := fun h0 => hj (by rw [h0]; exact hint)
        have hnext : ¬ (later rounds (j - 1)).Interrupted := by
          rw [later, show j - 1 + 1 = j by omega]
          exact hj
        exact ihj (j - 1) (by omega) _ _ (by omega) (by omega) hend.later hnext hlater

/-- **A run that a signal diverts does not end**, by induction on the rounds before the signal is
seen at the loop condition. -/
theorem not_loops_of_signal (buf : List UInt8) (res : ℤ × List UInt8) :
    ∀ (i : ℕ) (rounds : ℕ → Round) (n : ℕ), n ≤ buf.length → (∀ j < i, (rounds j).GoesOn) →
      ∑ j ∈ Finset.range i, (rounds j).bytes < buf.length - n → (rounds i).before = true →
      ¬ Loops (writeStep buf) ⟨rounds, n, buf.take n, false⟩ res := by
  intro i
  induction i with
  | zero =>
    intro rounds n _ _ hsum hsig
    exact not_loops_signalled (by omega) hsig
  | succ i ih =>
    intro rounds n hn hall hsum hsig
    rw [Finset.sum_range_succ'] at hsum
    have hlt : n < buf.length := by omega
    cases hbefore : (rounds 0).before with
    | true => exact not_loops_signalled hlt hbefore
    | false =>
      rw [loops_iff_of_goOn (writeStep_goesOn hlt hbefore (hall 0 (by omega)))]
      refine ih (later rounds) _ (by omega) (fun j hj => hall (j + 1) (by omega)) ?_ hsig
      have : ∑ j ∈ Finset.range i, (later rounds j).bytes =
          ∑ j ∈ Finset.range i, (rounds (j + 1)).bytes := rfl
      omega

/-- **`achd_write` is total and honest** if and only if no test of the loop condition sees the
signal while bytes are left. -/
theorem achdWrite_total_iff {rounds : ℕ → Round} (hend : NotEndless rounds) (buf : List UInt8) :
    TotalHonest rounds buf ↔ Unsignalled rounds buf.length := by
  constructor
  · rintro ⟨r, written, hret, -⟩ i hall hsum
    by_contra hsig
    exact not_loops_of_signal buf (r, written) i rounds 0 (by omega) hall hsum (by simpa using hsig)
      hret
  · intro hun
    obtain ⟨j, -, hj⟩ := hend 0
    obtain ⟨r, written, hloops, hrest⟩ := loops_of_unsignalled buf buf.length j rounds 0 (by omega)
      (by omega) hend hj hun
    exact ⟨r, written, hloops, hrest⟩

/-- Short counts, an interrupted call, and a signal after the last byte. -/
def sampleRounds : ℕ → Round
  | 0 => ⟨false, .wrote 0, false⟩
  | 1 => ⟨false, .nothing false true, false⟩
  | 2 => ⟨false, .wrote 7, true⟩
  | _ => ⟨true, .wrote 0, true⟩

theorem achdWrite_total_iff_sample :
    NotEndless sampleRounds ∧
      (TotalHonest sampleRounds [1, 2, 3] ↔ Unsignalled sampleRounds 3) := by
  have hend : NotEndless sampleRounds := by
    intro i
    refine ⟨i + 3, by omega, ?_⟩
    rintro ⟨zero, hres⟩
    simp [sampleRounds] at hres
  exact ⟨hend, achdWrite_total_iff hend [1, 2, 3]⟩

/-- The signal comes while the first of two bytes is written: `achd_write` does not return. -/
theorem signal_after_short_write :
    NotEndless (fun i => ⟨decide (0 < i), .wrote 0, true⟩) ∧
      ∀ r written, ¬ Returns (fun i => ⟨decide (0 < i), .wrote 0, true⟩) [1, 2] r written := by
  constructor
  · intro i
    refine ⟨i, le_rfl, ?_⟩
    rintro ⟨zero, hres⟩
    simp at hres
  · intro r written
    have hgo : ∀ j < 1, (Round.mk (decide (0 < j)) (.wrote 0) true).GoesOn :=
      fun _ _ => Or.inl (Nat.succ_pos 0)
    exact not_loops_of_signal [1, 2] (r, written) 1 _ 0 (by decide) hgo (by decide) rfl

/-! ### The signal while `write(2)` runs -/

/-- What a call does, as a result of `write(2)`. -/
def resOf : SysRes → WriteRes
  | .upTo k => .wrote k
  | .eintr => .nothing false true
  | .fail => .nothing false false

/-- The rounds in which the signal comes while a call runs. After the calls given, a call writes
all of the `cap` bytes there may be. -/
def roundsOf (cap : ℕ) : Bool → List Sys → ℕ → Round
  | sig, [], _ => ⟨sig, .wrote cap, false⟩
  | sig, c :: _, 0 => ⟨sig, resOf c.res, c.sig⟩
  | _, c :: calls, i + 1 => roundsOf cap c.sig calls i

/-- The loop of `Ach.Daemon.Io` from a test of its condition on. -/
def writeFrom (cnt : ℕ) (sig : Bool) (calls : List Sys) (left : List UInt8) : WriteEnd :=
  if sig then ⟨[], if left = [] then some cnt else none, true⟩ else writeLoop cnt calls left

theorem writeFrom_nil (cnt : ℕ) (sig : Bool) (calls : List Sys) :
    (writeFrom cnt sig calls []).ret = some (cnt : ℤ) ∧
      (writeFrom cnt sig calls []).written = [] := by
  cases sig <;> simp [writeFrom, writeLoop]

section
variable {cnt : ℕ} {c : Sys} {calls : List Sys} {left : List UInt8}

theorem writeFrom_last (hleft : left ≠ []) :
    writeFrom cnt false [] left = ⟨left, some cnt, false⟩ := by
  obtain ⟨b, left, rfl⟩ := List.exists_cons_of_ne_nil hleft
  rfl

theorem writeFrom_upTo (hleft : left ≠ []) {k : ℕ} (hr : c.res = .upTo k) :
    writeFrom cnt false (c :: calls) left =
      { writeFrom cnt c.sig calls (left.drop (k + 1)) with
        written := left.take (k + 1) ++
          (writeFrom cnt c.sig calls (left.drop (k + 1))).written } := by
  obtain ⟨b, left, rfl⟩ := List.exists_cons_of_ne_nil hleft
  cases hsig : c.sig <;> simp [writeFrom, writeLoop, hr, hsig]

theorem writeFrom_eintr (hleft : left ≠ []) (hr : c.res = .eintr) (hsig : c.sig = false) :
    writeFrom cnt false (c :: calls) left = writeFrom cnt c.sig calls left := by
  obtain ⟨b, left, rfl⟩ := List.exists_cons_of_ne_nil hleft
  simp [writeFrom, writeLoop, hr, hsig]

theorem writeFrom_stopped (cnt : ℕ) (calls : List Sys) (hleft : left ≠ [])
    (hr : c.res = .eintr ∧ c.sig = true ∨ c.res = .fail) :
    (writeFrom cnt false (c :: calls) left).ret = some (-1) ∧
      (writeFrom cnt false (c :: calls) left).written = [] := by
  obtain ⟨b, left, rfl⟩ := List.exists_cons_of_ne_nil hleft
  rcases hr with ⟨hr, hsig⟩ | hr
  · simp [writeFrom, writeLoop, hr, hsig]
  · simp [writeFrom, writeLoop, hr]

end

theorem later_roundsOf (cap : ℕ) (sig : Bool) (c : Sys) (calls : List Sys) :
    later (roundsOf cap sig (c :: calls)) = roundsOf cap c.sig calls := rfl

theorem before_roundsOf (cap : ℕ) (sig : Bool) (calls : List Sys) :
    (roundsOf cap sig calls 0).before = sig := by
  cases calls <;> rfl

section
variable (buf : List UInt8) {cap : ℕ} (r : ℤ) (written : List UInt8)

/-- The loop on these rounds does what `writeFrom` says, from `n` on. -/
def Agrees (cap : ℕ) (sig : Bool) (calls : List Sys) (n : ℕ) : Prop :=
  Loops (writeStep buf) ⟨roundsOf cap sig calls, n, buf.take n, false⟩ (r, written) ↔
    (writeFrom buf.length sig calls (buf.drop n)).ret = some r ∧
      written = buf.take n ++ (writeFrom buf.length sig calls (buf.drop n)).written

theorem agrees_done (sig : Bool) (calls : List Sys) :
    Agrees buf r written cap sig calls buf.length := by
  obtain ⟨hret, hw⟩ := writeFrom_nil buf.length sig calls
  unfold Agrees
  rw [loops_done_iff le_rfl, List.drop_length, hret, hw]
  simp [eq_comm]

theorem agrees_signalled (calls : List Sys) {n : ℕ} (hn : n < buf.length) :
    Agrees buf r written cap true calls n := by
  have hleft : buf.drop n ≠ [] := by simp [hn]
  unfold Agrees
  simp [writeFrom, hleft, not_loops_signalled hn (before_roundsOf cap true calls)]

theorem agrees_stopped {c : Sys} (calls : List Sys) {n : ℕ} (hn : n < buf.length)
    (hr : c.res = .eintr ∧ c.sig = true ∨ c.res = .fail) :
    Agrees buf r written cap false (c :: calls) n := by
  have hleft : buf.drop n ≠ [] := by simp [hn]
  have hstep : writeStep buf ⟨roundsOf cap false (c :: calls), n, buf.take n, false⟩ =
      .inr (-1, buf.take n) := by
    rcases hr with ⟨hr, hsig⟩ | hr
    · simp [writeStep, roundsOf, hn, resOf, hr, hsig]
    · simp [writeStep, roundsOf, hn, resOf, hr]
  obtain ⟨hret, hw⟩ := writeFrom_stopped buf.length calls hleft hr
  unfold Agrees
  rw [loops_iff_of_leave hstep, hret, hw]
  simp [eq_comm]

theorem loops_roundsOf (hcap : buf.length ≤ cap) : ∀ (calls : List Sys) (sig : Bool) (n : ℕ),
    n ≤ buf.length → Agrees buf r written cap sig calls n := by
  intro calls
  induction calls with
  | nil =>
    intro sig n hn
    rcases Nat.eq_or_lt_of_le hn with rfl | hlt
    · exact agrees_done buf r written sig []
    cases sig with
    | true => exact agrees_signalled buf r written [] hlt
    | false =>
      have hleft : buf.drop n ≠ [] := by simp [hlt]
      have hstep := writeStep_goesOn hlt (before_roundsOf cap false [])
        (Or.inl (Nat.succ_pos cap))
      have hall : min buf.length (n + (roundsOf cap false [] 0).bytes) = buf.length := by
        have : (roundsOf cap false [] 0).bytes = cap + 1 := rfl
        omega
      unfold Agrees
      rw [loops_iff_of_goOn hstep, hall, loops_done_iff le_rfl, writeFrom_last, List.take_length,
        List.take_append_drop, Prod.mk.injEq, Option.some.injEq, eq_comm (a := r)]
      exact hleft
  | cons c calls ih =>
    intro sig n hn
    rcases Nat.eq_or_lt_of_le hn with rfl | hlt
    · exact agrees_done buf r written sig (c :: calls)
    cases sig with
    | true => exact agrees_signalled buf r written (c :: calls) hlt
    | false =>
      have hleft : buf.drop n ≠ [] := by simp [hlt]
      have hbefore := before_roundsOf cap false (c :: calls)
      cases hr : c.res with
      | upTo k =>
        have hbytes : (roundsOf cap false (c :: calls) 0).bytes = k + 1 := by
          simp [roundsOf, Round.bytes, resOf, hr]
        have hstep := writeStep_goesOn hlt hbefore (Or.inl (by omega))
        rw [hbytes, later_roundsOf] at hstep
        have hrec := ih c.sig (min buf.length (n + (k + 1))) (by omega)
        have hdrop : buf.drop (min buf.length (n + (k + 1))) = (buf.drop n).drop (k + 1) := by
          rw [List.drop_drop]
          rcases Nat.le_total buf.length (n + (k + 1)) with hle | hle
          · rw [Nat.min_eq_left hle, List.drop_length, List.drop_of_length_le hle]
          · rw [Nat.min_eq_right hle]
        have htake : buf.take (min buf.length (n + (k + 1))) =
            buf.take n ++ (buf.drop n).take (k + 1) := by
          rw [← List.take_add, Nat.min_comm, List.take_eq_take_min (i := n + (k + 1))]
        unfold Agrees at hrec ⊢
        rw [loops_iff_of_goOn hstep, hrec, writeFrom_upTo hleft hr, hdrop, htake,
          List.append_assoc]
      | eintr =>
        cases hsig : c.sig with
        | true => exact agrees_stopped buf r written calls hlt (Or.inl ⟨hr, hsig⟩)
        | false =>
          have hstep := writeStep_goesOn hlt hbefore
            (Or.inr ⟨⟨false, by simp [roundsOf, resOf, hr]⟩, hsig⟩)
          have hbytes : (roundsOf cap false (c :: calls) 0).bytes = 0 := by
            simp [roundsOf, Round.bytes, resOf, hr]
          have hrec := ih c.sig n hn
          rw [hbytes, Nat.add_zero, Nat.min_eq_right hn, later_roundsOf] at hstep
          unfold Agrees at hrec ⊢
          rw [loops_iff_of_goOn hstep, hrec, writeFrom_eintr hleft hr hsig]
      | fail => exact agrees_stopped buf r written calls hlt (Or.inr hr)

end

/-- **`achd_write` of `Ach.Daemon.Io`** is the loop on these rounds. -/
theorem achdWrite_eq_loop (sig : Bool) (calls : List Sys) (buf : List UInt8) (r : ℤ)
    (written : List UInt8) :
    Returns (roundsOf buf.length sig calls) buf r written ↔
      (achdWrite sig calls buf).ret = some r ∧ written = (achdWrite sig calls buf).written := by
  have h := loops_roundsOf buf r written le_rfl calls sig 0 (Nat.zero_le _)
  have hsame : writeFrom buf.length sig calls (buf.drop 0) = achdWrite sig calls buf := by
    unfold writeFrom achdWrite
    cases sig with
    | true => cases buf <;> simp
    | false => rfl
  rwa [Agrees, hsame, List.take_zero, List.nil_append] at h

end Ach.Daemon.Write
