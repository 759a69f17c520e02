import Mathlib.Tactic.Common

/-! # Loops

A loop is given by its body: from a state it goes on in another state, or leaves with a result.
`loop` runs the body a bounded number of times. `Loops step s r` says that the loop, started in `s`,
ends with `r`. -/

namespace Ach.Lib.Loop

variable {σ ρ : Type}

/-- At most `n` times the body of the loop. -/
def loop (step : σ → σ ⊕ ρ) : ℕ → σ → Option ρ
  | 0, _ => none
  | n + 1, s =>
    match step s with
    | .inl s' => loop step n s'
    | .inr r => some r

/-- The loop ends with the result. -/
def Loops (step : σ → σ ⊕ ρ) (s : σ) (r : ρ) : Prop := ∃ n, loop step n s = some r

variable {step : σ → σ ⊕ ρ} {s s' : σ} {r : ρ}

theorem Loops.leave (h : step s = .inr r) : Loops step s r := ⟨1, by simp [loop, h]⟩

theorem Loops.goOn (h : step s = .inl s') (hl : Loops step s' r) : Loops step s r := by
  obtain ⟨n, hn⟩ := hl
  exact ⟨n + 1, by simp [loop, h, hn]⟩

theorem loops_iff_of_goOn (h : step s = .inl s') : Loops step s r ↔ Loops step s' r := by
  constructor
  · rintro ⟨n, hn⟩
    cases n with
    | zero => simp [loop] at hn
    | succ n =>
      rw [loop, h] at hn
      exact ⟨n, hn⟩
  · exact Loops.goOn h

theorem loops_iff_of_leave {r' : ρ} (h : step s = .inr r') : Loops step s r ↔ r = r' := by
  constructor
  · rintro ⟨n, hn⟩
    cases n with
    | zero => simp [loop] at hn
    | succ n =>
      rw [loop, h] at hn
      exact (Option.some.inj hn).symm
  · rintro rfl
    exact Loops.leave h

/-- A body that changes nothing goes on for ever. -/
theorem not_loops_of_fixed (h : step s = .inl s) : ¬ Loops step s r := by
  rintro ⟨n, hn⟩
  induction n with
  | zero => simp [loop] at hn
  | succ n ih =>
    rw [loop, h] at hn
    exact ih hn

end Ach.Lib.Loop
