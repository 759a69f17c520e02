import Mathlib.Data.List.Forall2

/-! # Lists with a replaced entry

What is said of the entries of a list, when one of them is replaced (`map_filter_set`, `forall_set`)
or one comes to it (`forall_concat`), and of two lists whose entries belong together. -/

namespace Ach.Lib.Replace

section
variable {α β : Type} {p : α → Bool} {xs : List α} {i : ℕ} {x y : α}

/-- An entry that is replaced. -/
theorem split_set (hx : xs[i]? = some x) (y : α) :
    ∃ pre post, xs = pre ++ x :: post ∧ xs.set i y = pre ++ y :: post := by
  obtain ⟨hi, rfl⟩ := List.getElem?_eq_some_iff.mp hx
  refine ⟨xs.take i, xs.drop (i + 1), ?_, ?_⟩
  · rw [← List.drop_eq_getElem_cons hi, List.take_append_drop]
  · rw [List.set_eq_take_append_cons_drop, if_pos hi]

/-- An entry that counts is replaced by another one that does. -/
theorem filter_set (hx : xs[i]? = some x) (hpx : p x = true) (hpy : p y = true) :
    ∃ pre post, xs.filter p = pre ++ x :: post ∧ (xs.set i y).filter p = pre ++ y :: post := by
  obtain ⟨pre, post, hxs, hset⟩ := split_set hx y
  exact ⟨pre.filter p, post.filter p, by simp [hxs, List.filter_append, hpx],
    by simp [hset, List.filter_append, hpy]⟩

/-- The last entry is replaced, or one before it. -/
theorem concat_set {z : α} (hx : (xs ++ [z])[i]? = some x) (y : α) :
    (xs[i]? = some x ∧ (xs ++ [z]).set i y = xs.set i y ++ [z]) ∨
      (z = x ∧ (xs ++ [z]).set i y = xs ++ [y]) := by
  rcases Nat.lt_or_ge i xs.length with hi | hi
  · rw [List.getElem?_append_left hi] at hx
    exact .inl ⟨hx, List.set_append_left _ _ hi⟩
  · rw [List.getElem?_append_right hi, List.getElem?_singleton] at hx
    obtain ⟨hi', hz⟩ := Option.ite_none_right_eq_some.mp hx
    obtain rfl : i = xs.length := by omega
    refine .inr ⟨Option.some.inj hz, ?_⟩
    rw [List.set_append_right _ _ (Nat.le_refl _), Nat.sub_self, List.set_cons_zero]

/-- What is looked at is the same after the replacement. -/
theorem map_filter_set (f : α → β) (hx : xs[i]? = some x) (hp : p y = p x)
    (hf : p x = true → f y = f x) : ((xs.set i y).filter p).map f = (xs.filter p).map f := by
  obtain ⟨pre, post, hxs, hset⟩ := split_set hx y
  rw [hset, hxs, List.filter_append, List.filter_append]
  cases hpx : p x with
  | true => simp [hpx, hp.trans hpx, hf hpx]
  | false => simp [hpx, hp.trans hpx]

end

section
variable {α β : Type} {P : α → Prop} {xs : List α} {ys : List β} {y : α} {R : α → β → Prop}

/-- What holds of the old entries and of the new one. -/
theorem forall_set {i : ℕ} (h : ∀ x ∈ xs, P x) (hy : P y) : ∀ x ∈ xs.set i y, P x := by
  intro x hx
  rcases List.mem_or_eq_of_mem_set hx with hx | rfl
  · exact h x hx
  · exact hy

theorem forall_concat (h : ∀ x ∈ xs, P x) (hy : P y) : ∀ x ∈ xs ++ [y], P x :=
  List.forall_mem_append.mpr ⟨h, List.forall_mem_singleton.mpr hy⟩

/-- Entries that belong together are in their lists. -/
theorem forall₂_mem (h : List.Forall₂ R xs ys) :
    List.Forall₂ (fun x y => R x y ∧ x ∈ xs ∧ y ∈ ys) xs ys := by
  induction h with
  | nil => exact .nil
  | cons hxy _ ih =>
    refine .cons ⟨hxy, List.mem_cons_self, List.mem_cons_self⟩ (ih.imp fun _ _ h => ?_)
    exact ⟨h.1, List.mem_cons_of_mem _ h.2.1, List.mem_cons_of_mem _ h.2.2⟩

/-- To every entry one belongs. -/
theorem exists_of_forall₂ {x : α} (h : List.Forall₂ R xs ys) (hx : x ∈ xs) : ∃ y ∈ ys, R x y := by
  induction h with
  | nil => simp at hx
  | cons hxy _ ih =>
    rcases List.mem_cons.mp hx with rfl | hx
    · exact ⟨_, List.mem_cons_self, hxy⟩
    · obtain ⟨y, hy, h⟩ := ih hx
      exact ⟨y, List.mem_cons_of_mem _ hy, h⟩

end

end Ach.Lib.Replace
