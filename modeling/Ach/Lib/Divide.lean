import Ach.Lib.Run

/-! # Code whose divisions are recorded

A division by zero is a fault, and so is an access outside an array. Where the two have to be told
apart, code is written as `Traced` code: what it does (`exec`), and the divisors of the divisions it
evaluates on its way, in their order (`divisors`). Code without a division is taken over as it is
(`act`).

`Nonzero P m Q` says that from a state satisfying `P` every divisor of `m` is non-zero and, if `m`
returns, `Q` holds. -/

namespace Ach.Lib.Divide

open Ach.Lib.Run

/-- Code, and the divisors of the divisions it evaluates. -/
structure Traced (σ α : Type) where
  exec : Exec σ α
  divisors : Bool → σ → List ℕ

variable {σ α β : Type}

instance : Monad (Traced σ) where
  pure a := ⟨pure a, fun _ _ => []⟩
  bind m f := ⟨m.exec >>= fun a => (f a).exec, fun dbg s =>
    m.divisors dbg s ++ (match out m.exec dbg s with
      | .ok p => (f p.1).divisors dbg p.2
      | _ => [])⟩

/-- Code without a division. -/
def act (m : Exec σ α) : Traced σ α := ⟨m, fun _ _ => []⟩

/-- `a % b`. -/
def tracedMod (a b : ℕ) : Traced σ ℕ := ⟨umod a b, fun _ _ => [b]⟩

/-- `a / b`. -/
def tracedDiv (a b : ℕ) : Traced σ ℕ :=
  ⟨if b = 0 then stop .fault else pure (a / b), fun _ _ => [b]⟩

/-! ### What traced code does -/

@[simp] theorem exec_act (m : Exec σ α) : (act m).exec = m := rfl

@[simp] theorem exec_pure (a : α) : (pure a : Traced σ α).exec = pure a := rfl

@[simp] theorem exec_mod (a b : ℕ) : (tracedMod a b : Traced σ ℕ).exec = umod a b := rfl

@[simp] theorem exec_bind (m : Traced σ α) (f : α → Traced σ β) :
    (m >>= f).exec = m.exec >>= fun a => (f a).exec := rfl

@[simp] theorem exec_ite (c : Prop) [Decidable c] (m n : Traced σ α) :
    (if c then m else n).exec = if c then m.exec else n.exec := by
  split_ifs <;> rfl

theorem out_exec_div {a b : ℕ} (h : 0 < b) (dbg : Bool) (s : σ) :
    out (tracedDiv a b : Traced σ ℕ).exec dbg s = .ok (a / b, s) := by
  unfold tracedDiv
  rw [if_neg (by omega)]
  rfl

theorem divisors_bind (m : Traced σ α) (f : α → Traced σ β) (dbg : Bool) (s : σ) :
    (m >>= f).divisors dbg s = m.divisors dbg s ++ (match out m.exec dbg s with
      | .ok p => (f p.1).divisors dbg p.2
      | _ => []) := rfl

/-- From a state satisfying `P`, every divisor of `m` is non-zero, and if `m` returns, `Q` holds of
the value and the state. -/
def Nonzero (P : σ → Prop) (m : Traced σ α) (Q : α → σ → Prop) : Prop :=
  ∀ dbg s, P s → (∀ d ∈ m.divisors dbg s, d ≠ 0) ∧
    ∀ a t, out m.exec dbg s = .ok (a, t) → Q a t

namespace Nonzero

variable {P P' : σ → Prop} {Q : α → σ → Prop} {R : β → σ → Prop}

/-- Code without a division keeps to its Hoare triple. -/
theorem act' {m : Exec σ α} (h : Holds P m Q P) : Nonzero P (act m) Q :=
  fun dbg s hs => ⟨by simp [act], (h dbg s hs).2⟩

theorem pure' {a : α} (h : ∀ s, P s → Q a s) : Nonzero P (pure a) Q := by
  intro dbg s hs
  refine ⟨by simp [pure], fun b t hb => ?_⟩
  rw [exec_pure, out_pure, Outcome.ok.injEq, Prod.mk.injEq] at hb
  obtain ⟨rfl, rfl⟩ := hb
  exact h s hs

theorem bind {m : Traced σ α} {f : α → Traced σ β} (hm : Nonzero P m Q)
    (hf : ∀ a, Nonzero (Q a) (f a) R) : Nonzero P (m >>= f) R := by
  intro dbg s hs
  obtain ⟨hdiv, hret⟩ := hm dbg s hs
  constructor
  · intro d hd
    rw [divisors_bind] at hd
    rcases List.mem_append.mp hd with hd | hd
    · exact hdiv d hd
    · rcases ho : out m.exec dbg s with p | _ | _ | _ | _ <;> rw [ho] at hd
      · exact (hf p.1 dbg p.2 (hret _ _ ho)).1 d hd
      all_goals simp at hd
  · intro b t hb
    obtain ⟨p, hp, hb⟩ := Outcome.bind_eq_ok.mp hb
    exact (hf p.1 dbg p.2 (hret _ _ hp)).2 b t hb

/-- Reading the state before going on. -/
theorem read {f : σ → Traced σ α} (h : ∀ a, P a → Nonzero P (f a) Q) :
    Nonzero P (act load >>= f) Q :=
  fun dbg s hs => h s hs dbg s hs

theorem ite' {c : Prop} [Decidable c] {m n : Traced σ α} (hm : c → Nonzero P m Q)
    (hn : ¬ c → Nonzero P n Q) : Nonzero P (if c then m else n) Q := by
  by_cases h : c
  · rw [if_pos h]
    exact hm h
  · rw [if_neg h]
    exact hn h

theorem conseq {m : Traced σ α} {Q' : α → σ → Prop} (hm : Nonzero P m Q)
    (hP : ∀ s, P' s → P s) (hQ : ∀ a s, Q a s → Q' a s) : Nonzero P' m Q' :=
  fun dbg s hs => ⟨(hm dbg s (hP s hs)).1, fun a t h => hQ a t ((hm dbg s (hP s hs)).2 a t h)⟩

end Nonzero

end Ach.Lib.Divide
