import Mathlib.Data.List.Basic

/-! # Sequences of encodings cut short

Elements are sent one after the other, each as its encoding. Of a stream that is cut after `n`
symbols, `whole enc xs n` are the elements whose encodings lie before the cut. -/

namespace Ach.Lib.Framing

variable {α β : Type} (enc : α → List β)

/-- The elements that lie wholly before the cut. -/
def whole : List α → ℕ → List α
  | [], _ => []
  | x :: xs, n => if (enc x).length ≤ n then x :: whole xs (n - (enc x).length) else []

theorem whole_cons_of_le {x : α} {xs : List α} {n : ℕ} (h : (enc x).length ≤ n) :
    whole enc (x :: xs) n = x :: whole enc xs (n - (enc x).length) := if_pos h

theorem whole_cons_of_lt {x : α} {xs : List α} {n : ℕ} (h : n < (enc x).length) :
    whole enc (x :: xs) n = [] := if_neg (by omega)

/-- Behind the last symbol nothing is cut off. -/
theorem whole_of_le :
    ∀ (xs : List α) (n : ℕ), (xs.flatMap enc).length ≤ n → whole enc xs n = xs := by
  intro xs
  induction xs with
  | nil =>
    intro _ _
    rfl
  | cons x xs ih =>
    intro n h
    simp only [List.flatMap_cons, List.length_append] at h
    rw [whole_cons_of_le enc (by omega), ih _ (by omega)]

/-- What is left of the stream when the cut lies behind the first element. -/
theorem take_flatMap_of_le {x : α} {xs : List α} {n : ℕ} (h : (enc x).length ≤ n) :
    ((x :: xs).flatMap enc).take n = enc x ++ (xs.flatMap enc).take (n - (enc x).length) := by
  rw [List.flatMap_cons, List.take_append, List.take_of_length_le h]

/-- What is left of the stream when the cut lies within the first element. -/
theorem take_flatMap_of_lt {x : α} {xs : List α} {n : ℕ} (h : n < (enc x).length) :
    ((x :: xs).flatMap enc).take n = (enc x).take n := by
  rw [List.flatMap_cons, List.take_append_of_le_length (by omega)]

/-! ### Encodings that tell where they end -/

/-- **No encoding begins another one**, whatever comes after that. -/
structure PrefixFree (P : α → Prop) : Prop where
  eq : ∀ x y u, P x → P y → enc x <+: enc y ++ u → x = y
  ne_nil : ∀ x, P x → enc x ≠ []

/-- A proper part of an encoding, or nothing. -/
def Part (P : α → Prop) (rest : List β) : Prop :=
  rest ≠ [] → ∃ z, P z ∧ rest <+: enc z ∧ rest.length < (enc z).length

variable {enc} {P : α → Prop}

/-- **A stream is read in one way only:** encodings at its beginning are those of its first
elements. -/
theorem PrefixFree.first (h : PrefixFree enc P) {rest : List β} (hrest : Part enc P rest) :
    ∀ {xs ys : List α}, (∀ x ∈ xs, P x) → (∀ y ∈ ys, P y) →
      xs.flatMap enc <+: ys.flatMap enc ++ rest → xs <+: ys := by
  intro xs
  induction xs with
  | nil =>
    intro ys _ _ _
    exact List.nil_prefix
  | cons x xs ih =>
    intro ys hxs hys hp
    have hx := hxs x List.mem_cons_self
    have hfirst : enc x <+: ys.flatMap enc ++ rest :=
      (List.prefix_append _ _).trans (List.flatMap_cons ▸ hp)
    cases ys with
    | nil =>
      -- the encoding of `x` would be a part of one
      have hne : rest ≠ [] := fun he => h.ne_nil x hx (by simpa [he] using hfirst)
      obtain ⟨z, hz, hpz, hlt⟩ := hrest hne
      have hxr : enc x <+: rest := by simpa using hfirst
      obtain rfl := h.eq x z [] hx hz (by simpa using hxr.trans hpz)
      exact absurd hxr.length_le (by omega)
    | cons y ys =>
      rw [List.flatMap_cons, List.append_assoc] at hfirst
      obtain rfl := h.eq x y _ hx (hys y List.mem_cons_self) hfirst
      rw [List.flatMap_cons, List.flatMap_cons, List.append_assoc,
        List.prefix_append_right_inj] at hp
      exact (List.prefix_cons_inj x).mpr (ih (fun z hz => hxs z (List.mem_cons_of_mem x hz))
        (fun z hz => hys z (List.mem_cons_of_mem x hz)) hp)

/-- What has come of a stream begins with a whole encoding, or is a part of one. -/
theorem come_cases {xs : List α} {rest come lost : List β} (hxs : ∀ x ∈ xs, P x)
    (hrest : Part enc P rest) (h : come ++ lost = xs.flatMap enc ++ rest) :
    (∃ x ys u, xs = x :: ys ∧ come = enc x ++ u ∧ u ++ lost = ys.flatMap enc ++ rest) ∨
      Part enc P come := by
  have hcome : come <+: xs.flatMap enc ++ rest := h ▸ List.prefix_append _ _
  cases xs with
  | nil =>
    refine .inr fun hne => ?_
    have hcr : come <+: rest := by simpa using hcome
    have hlen := hcr.length_le
    obtain ⟨z, hz, hpz, hlt⟩ := hrest fun he => hne (by simpa [he] using hcr)
    exact ⟨z, hz, hcr.trans hpz, by omega⟩
  | cons x ys =>
    rw [List.flatMap_cons, List.append_assoc] at h hcome
    rcases Nat.lt_or_ge come.length (enc x).length with hlt | hge
    · exact .inr fun _ => ⟨x, hxs x List.mem_cons_self,
        List.prefix_of_prefix_length_le hcome (List.prefix_append _ _) (Nat.le_of_lt hlt), hlt⟩
    · obtain ⟨u, rfl⟩ := List.prefix_of_prefix_length_le (List.prefix_append _ _) hcome hge
      rw [List.append_assoc, List.append_cancel_left_eq] at h
      exact .inl ⟨x, ys, u, rfl, rfl, h⟩

end Ach.Lib.Framing
