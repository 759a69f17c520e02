import Mathlib.Tactic.Linarith

/-! # Imperative code whose every store is recorded

`Exec σ α` is code over a shared state `σ` that returns a value of type `α`. Running it gives two
things: the list of the states the shared memory went through, one after each store (`log`), and
how the run ends (`out`). The log is what another party can find in memory if the running process
dies: after any number of stores, and at no other point, the memory is the last state logged.

A run does not have to return. `abort` is a failed `assert`, `fault` an access outside an array or
a division by zero, `hang` a loop that never ends, `block` a wait that no event ends. Whether
asserts are compiled in is a parameter of every run (`dbg`).

The rules at the end are those of Hoare logic with a crash condition: `Holds P m Q C` says that
from a state satisfying `P` every logged state satisfies `C` and, if `m` returns, `Q` holds; and
those of code that does not fault: `Safe P m Q`. -/

namespace Ach.Lib.Run

/-- How a run ends. -/
inductive Outcome (α : Type) where
  | ok (a : α)
  | abort
  | fault
  | hang
  | block
  deriving DecidableEq, Repr

/-- Continues after a run that returned. -/
def Outcome.bind {α β : Type} (o : Outcome α) (f : α → Outcome β) : Outcome β :=
  match o with
  | .ok a => f a
  | .abort => .abort
  | .fault => .fault
  | .hang => .hang
  | .block => .block

@[simp] theorem Outcome.bind_ok {α β : Type} (a : α) (f : α → Outcome β) :
    (Outcome.ok a).bind f = f a := rfl

theorem Outcome.bind_eq_ok {α β : Type} {o : Outcome α} {f : α → Outcome β} {b : β} :
    o.bind f = .ok b ↔ ∃ a, o = .ok a ∧ f a = .ok b := by
  cases o <;> simp [Outcome.bind]

/-- The run returned. -/
def Outcome.isOk {α : Type} : Outcome α → Bool
  | .ok _ => true
  | _ => false

theorem Outcome.exists_of_isOk {α : Type} {o : Outcome α} (h : o.isOk = true) : ∃ a, o = .ok a := by
  cases o <;> simp_all [Outcome.isOk]

/-- Code over a shared state. -/
def Exec (σ α : Type) : Type := Bool → σ → List σ × Outcome (α × σ)

variable {σ α β : Type}

/-- The states the memory goes through, one after each store. -/
def log (m : Exec σ α) (dbg : Bool) (s : σ) : List σ := (m dbg s).1

/-- How the run ends. -/
def out (m : Exec σ α) (dbg : Bool) (s : σ) : Outcome (α × σ) := (m dbg s).2

instance : Monad (Exec σ) where
  pure a := fun _ s => ([], .ok (a, s))
  bind m f := fun dbg s =>
    (log m dbg s ++ (match out m dbg s with
      | .ok p => log (f p.1) dbg p.2
      | _ => []),
      (out m dbg s).bind fun p => out (f p.1) dbg p.2)

/-- Reads the shared state. -/
def load : Exec σ σ := fun _ s => ([], .ok (s, s))

/-- One store to the shared state. -/
def store (f : σ → σ) : Exec σ Unit := fun _ s => ([f s], .ok ((), f s))

/-- `assert`. -/
def assert (p : Prop) [Decidable p] : Exec σ Unit :=
  fun dbg s => ([], if dbg && !decide p then .abort else .ok ((), s))

/-- Code that does not go on. -/
def stop (o : Outcome (α × σ)) : Exec σ α := fun _ _ => ([], o)

/-- Unsigned remainder: dividing by zero is a fault. -/
def umod (a b : ℕ) : Exec σ ℕ := if b = 0 then stop .fault else pure (a % b)

/-! ### How runs end -/

@[simp] theorem out_pure (a : α) (dbg : Bool) (s : σ) :
    out (pure a : Exec σ α) dbg s = .ok (a, s) := rfl

@[simp] theorem out_bind (m : Exec σ α) (f : α → Exec σ β) (dbg : Bool) (s : σ) :
    out (m >>= f) dbg s = (out m dbg s).bind fun p => out (f p.1) dbg p.2 := rfl

/-- The first step of a run that returns. -/
theorem out_bind_of {m : Exec σ α} {f : α → Exec σ β} {dbg : Bool} {s t : σ} {a : α}
    (h : out m dbg s = .ok (a, t)) : out (m >>= f) dbg s = out (f a) dbg t := by
  rw [out_bind, h, Outcome.bind_ok]

@[simp] theorem out_load (dbg : Bool) (s : σ) : out (load : Exec σ σ) dbg s = .ok (s, s) := rfl

@[simp] theorem out_store (f : σ → σ) (dbg : Bool) (s : σ) :
    out (store f) dbg s = .ok ((), f s) := rfl

@[simp] theorem out_stop (o : Outcome (α × σ)) (dbg : Bool) (s : σ) :
    out (stop o : Exec σ α) dbg s = o := rfl

theorem out_assert {p : Prop} [Decidable p] (h : p) (dbg : Bool) (s : σ) :
    out (assert p : Exec σ Unit) dbg s = .ok ((), s) := by
  simp [out, assert, h]

/-- An assert that is not compiled in need not hold. -/
theorem out_assert_of {p : Prop} [Decidable p] {dbg : Bool} (h : dbg = true → p) (s : σ) :
    out (assert p : Exec σ Unit) dbg s = .ok ((), s) := by
  cases dbg
  · rfl
  · exact out_assert (h rfl) true s

/-- An assert that is passed changes nothing. -/
theorem eq_of_out_assert {p : Prop} [Decidable p] {dbg : Bool} {s t : σ} {u : Unit}
    (h : out (assert p : Exec σ Unit) dbg s = .ok (u, t)) : s = t := by
  unfold out assert at h
  simp only at h
  split_ifs at h
  exact (Prod.mk.inj (Outcome.ok.inj h)).2

theorem out_umod {a b : ℕ} (h : 0 < b) (dbg : Bool) (s : σ) :
    out (umod a b : Exec σ ℕ) dbg s = .ok (a % b, s) := by
  unfold umod; rw [if_neg (by omega)]; rfl

theorem out_ite (c : Prop) [Decidable c] (m n : Exec σ α) (dbg : Bool) (s : σ) :
    out (if c then m else n) dbg s = if c then out m dbg s else out n dbg s := by
  split_ifs <;> rfl

/-! ### What runs store -/

@[simp] theorem log_pure (a : α) (dbg : Bool) (s : σ) : log (pure a : Exec σ α) dbg s = [] := rfl

@[simp] theorem log_load (dbg : Bool) (s : σ) : log (load : Exec σ σ) dbg s = [] := rfl

@[simp] theorem log_store (f : σ → σ) (dbg : Bool) (s : σ) : log (store f) dbg s = [f s] := rfl

@[simp] theorem log_stop (o : Outcome (α × σ)) (dbg : Bool) (s : σ) :
    log (stop o : Exec σ α) dbg s = [] := rfl

@[simp] theorem log_assert (p : Prop) [Decidable p] (dbg : Bool) (s : σ) :
    log (assert p : Exec σ Unit) dbg s = [] := rfl

theorem log_bind (m : Exec σ α) (f : α → Exec σ β) (dbg : Bool) (s : σ) :
    log (m >>= f) dbg s = log m dbg s ++ (match out m dbg s with
      | .ok p => log (f p.1) dbg p.2
      | _ => []) := rfl

/-! ### Hoare logic with a crash condition -/

/-- From a state satisfying `P`, every state `m` stores satisfies `C`, and if `m` returns, `Q`
holds of the value and the state. -/
def Holds (P : σ → Prop) (m : Exec σ α) (Q : α → σ → Prop) (C : σ → Prop) : Prop :=
  ∀ dbg s, P s → (∀ t ∈ log m dbg s, C t) ∧ ∀ a t, out m dbg s = .ok (a, t) → Q a t

namespace Holds

variable {P P' C : σ → Prop} {Q : α → σ → Prop} {R : β → σ → Prop}

theorem pure' {a : α} (h : ∀ s, P s → Q a s) : Holds P (pure a) Q C := by
  intro dbg s hs
  refine ⟨by simp, fun b t hb => ?_⟩
  rw [out_pure, Outcome.ok.injEq, Prod.mk.injEq] at hb
  obtain ⟨rfl, rfl⟩ := hb
  exact h s hs

theorem bind {m : Exec σ α} {f : α → Exec σ β} (hm : Holds P m Q C)
    (hf : ∀ a, Holds (Q a) (f a) R C) : Holds P (m >>= f) R C := by
  intro dbg s hs
  obtain ⟨hlog, hret⟩ := hm dbg s hs
  constructor
  · intro t ht
    rw [log_bind] at ht
    rcases List.mem_append.mp ht with ht | ht
    · exact hlog t ht
    · rcases ho : out m dbg s with p | _ | _ | _ | _ <;> rw [ho] at ht
      · exact (hf p.1 dbg p.2 (hret _ _ ho)).1 t ht
      all_goals simp at ht
  · intro b t hb
    obtain ⟨p, hp, hb⟩ := Outcome.bind_eq_ok.mp hb
    exact (hf p.1 dbg p.2 (hret _ _ hp)).2 b t hb

theorem load' : Holds P load (fun a s => a = s ∧ P s) C := by
  intro dbg s hs
  refine ⟨by simp, fun a t h => ?_⟩
  rw [out_load, Outcome.ok.injEq, Prod.mk.injEq] at h
  obtain ⟨rfl, rfl⟩ := h
  exact ⟨rfl, hs⟩

theorem store' {f : σ → σ} {Q : Unit → σ → Prop} (h : ∀ s, P s → Q () (f s) ∧ C (f s)) :
    Holds P (store f) Q C := by
  intro dbg s hs
  refine ⟨by simpa using (h s hs).2, fun a t ht => ?_⟩
  rw [out_store, Outcome.ok.injEq, Prod.mk.injEq] at ht
  rw [← ht.2]; exact (h s hs).1

theorem assert' {p : Prop} [Decidable p] : Holds P (assert p) (fun _ => P) C := by
  intro dbg s hs
  refine ⟨by simp, fun a t ht => ?_⟩
  unfold out assert at ht
  split_ifs at ht
  simp only [Outcome.ok.injEq, Prod.mk.injEq] at ht
  rw [← ht.2]; exact hs

/-- Code that does not return. -/
theorem stop' {o : Outcome (α × σ)} (h : ∀ p, o ≠ .ok p) : Holds P (stop o : Exec σ α) Q C :=
  fun _ _ _ => ⟨by simp, fun _ _ ho => absurd ho (h _)⟩

theorem fault' : Holds P (stop .fault : Exec σ α) Q C := stop' nofun

theorem block' : Holds P (stop .block : Exec σ α) Q C := stop' nofun

theorem umod' {a b : ℕ} : Holds P (umod a b) (fun _ => P) C := by
  unfold umod
  split_ifs
  · exact fault'
  · exact pure' fun _ h => h

theorem ite' {c : Prop} [Decidable c] {m n : Exec σ α} (hm : c → Holds P m Q C)
    (hn : ¬ c → Holds P n Q C) : Holds P (if c then m else n) Q C := by
  by_cases h : c
  · rw [if_pos h]; exact hm h
  · rw [if_neg h]; exact hn h

theorem conseq {m : Exec σ α} {Q' : α → σ → Prop} (hm : Holds P m Q C) (hP : ∀ s, P' s → P s)
    (hQ : ∀ a s, Q a s → Q' a s) : Holds P' m Q' C :=
  fun dbg s hs => ⟨(hm dbg s (hP s hs)).1, fun a t h => hQ a t ((hm dbg s (hP s hs)).2 a t h)⟩

/-- Reading the state before going on. -/
theorem read {f : σ → Exec σ α} (h : ∀ a, Holds P (f a) Q C) : Holds P (load >>= f) Q C :=
  load'.bind fun a => (h a).conseq (fun _ hs => hs.2) fun _ _ hq => hq

end Holds

/-! ### Code that does not fault -/

/-- From a state satisfying `P`, `m` does not fault, and if it returns, `Q` holds of the value and
the state. -/
def Safe (P : σ → Prop) (m : Exec σ α) (Q : α → σ → Prop) : Prop :=
  ∀ dbg s, P s → out m dbg s ≠ .fault ∧ ∀ a t, out m dbg s = .ok (a, t) → Q a t

namespace Safe

variable {P P' : σ → Prop} {Q : α → σ → Prop} {R : β → σ → Prop}

theorem pure' {a : α} (h : ∀ s, P s → Q a s) : Safe P (pure a) Q := by
  intro dbg s hs
  refine ⟨by simp, fun b t hb => ?_⟩
  rw [out_pure, Outcome.ok.injEq, Prod.mk.injEq] at hb
  obtain ⟨rfl, rfl⟩ := hb
  exact h s hs

theorem bind {m : Exec σ α} {f : α → Exec σ β} (hm : Safe P m Q)
    (hf : ∀ a, Safe (Q a) (f a) R) : Safe P (m >>= f) R := by
  intro dbg s hs
  obtain ⟨hne, hret⟩ := hm dbg s hs
  rw [out_bind]
  cases ho : out m dbg s with
  | ok p => exact hf p.1 dbg p.2 (hret _ _ ho)
  | fault => exact absurd ho hne
  | abort => simp [Outcome.bind]
  | hang => simp [Outcome.bind]
  | block => simp [Outcome.bind]

/-- Reading the state before going on. -/
theorem read {f : σ → Exec σ α} (h : ∀ a, Safe (fun s => s = a ∧ P s) (f a) Q) :
    Safe P (load >>= f) Q :=
  fun dbg s hs => h s dbg s ⟨rfl, hs⟩

theorem store' {f : σ → σ} {Q : Unit → σ → Prop} (h : ∀ s, P s → Q () (f s)) :
    Safe P (store f) Q := by
  intro dbg s hs
  refine ⟨by simp, fun a t ht => ?_⟩
  rw [out_store, Outcome.ok.injEq, Prod.mk.injEq] at ht
  rw [← ht.2]
  exact h s hs

theorem assert' {p : Prop} [Decidable p] : Safe P (assert p) (fun _ => P) := by
  intro dbg s hs
  unfold out assert
  split_ifs
  · simp
  · refine ⟨by simp, fun a t ht => ?_⟩
    simp only [Outcome.ok.injEq, Prod.mk.injEq] at ht
    rw [← ht.2]
    exact hs

theorem stop' {o : Outcome (α × σ)} (hf : o ≠ .fault) (h : ∀ p, o ≠ .ok p) :
    Safe P (stop o : Exec σ α) Q :=
  fun _ _ _ => ⟨hf, fun _ _ ho => absurd ho (h _)⟩

/-- A remainder is less than the modulus. -/
theorem umod' {a b : ℕ} (hb : 0 < b) : Safe P (umod a b) (fun r s => r < b ∧ P s) := by
  unfold umod
  rw [if_neg (by omega)]
  exact pure' fun s hs => ⟨Nat.mod_lt a hb, hs⟩

theorem ite' {c : Prop} [Decidable c] {m n : Exec σ α} (hm : c → Safe P m Q)
    (hn : ¬ c → Safe P n Q) : Safe P (if c then m else n) Q := by
  by_cases h : c
  · rw [if_pos h]; exact hm h
  · rw [if_neg h]; exact hn h

theorem conseq {m : Exec σ α} {Q' : α → σ → Prop} (hm : Safe P m Q) (hP : ∀ s, P' s → P s)
    (hQ : ∀ a s, Q a s → Q' a s) : Safe P' m Q' :=
  fun dbg s hs => ⟨(hm dbg s (hP s hs)).1, fun a t h => hQ a t ((hm dbg s (hP s hs)).2 a t h)⟩

/-- A precondition that does not speak of the state. -/
theorem of_pure {c : Prop} {m : Exec σ α} (h : c → Safe P m Q) : Safe (fun s => c ∧ P s) m Q :=
  fun dbg s hs => h hs.1 dbg s hs.2

end Safe

/-! ### Code that differs in what it returns -/

/-- The code `m'` returns `f` of what `m` returns. -/
def Maps {σ α β : Type} (f : α → β) (m : Exec σ α) (m' : Exec σ β) : Prop :=
  ∀ dbg s, out m' dbg s = (out m dbg s).bind fun p => .ok (f p.1, p.2)

namespace Maps
variable {σ α β γ δ : Type} {f : α → β}

theorem pure' (a : α) : Maps f (pure a : Exec σ α) (pure (f a)) := fun _ _ => rfl

theorem bind {g : γ → δ} {m : Exec σ γ} {m' : Exec σ δ} {k : γ → Exec σ α} {k' : δ → Exec σ β}
    (hm : Maps g m m') (hk : ∀ c, Maps f (k c) (k' (g c))) : Maps f (m >>= k) (m' >>= k') := by
  intro dbg s
  rw [out_bind, out_bind, hm dbg s]
  cases out m dbg s with
  | ok p => exact hk p.1 dbg p.2
  | abort => rfl
  | fault => rfl
  | hang => rfl
  | block => rfl

/-- Code that both begin with. -/
theorem same {m : Exec σ γ} {k : γ → Exec σ α} {k' : γ → Exec σ β} (hk : ∀ c, Maps f (k c) (k' c)) :
    Maps f (m >>= k) (m >>= k') := by
  refine bind (g := id) (fun dbg s => ?_) hk
  cases out m dbg s <;> rfl

theorem ite' {c : Prop} [Decidable c] {m n : Exec σ α} {m' n' : Exec σ β} (hm : Maps f m m')
    (hn : Maps f n n') : Maps f (if c then m else n) (if c then m' else n') := by
  split_ifs
  · exact hm
  · exact hn

end Maps

end Ach.Lib.Run
