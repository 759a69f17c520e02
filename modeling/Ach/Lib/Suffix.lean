import Mathlib.Data.List.Infix
import Mathlib.Tactic.Linarith

/-! # The longest suffix with a property

`Longest ok l t` says that `t` is the longest suffix of `l` satisfying `ok`. The suffixes of a list
are nested, so for a property that shorter lists inherit (`Hereditary`) there is one such suffix,
and appending an entry to `l` is a matter of dropping entries from the front of `t` until the new
entry fits (`Longest.append`). A part of a list is also the list of its entries by their places
(`map_getD_range'`). -/

namespace Ach.Lib.Suffix

variable {α : Type}

/-- `t` is the longest suffix of `l` with the property. -/
structure Longest (ok : List α → Prop) (l t : List α) : Prop where
  suffix : t <:+ l
  holds : ok t
  longest : ∀ u, u <:+ l → ok u → u <:+ t

/-- The property passes to suffixes, and to a list without its last entry. -/
structure Hereditary (ok : List α → Prop) : Prop where
  suffix : ∀ u v, u <:+ v → ok v → ok u
  init : ∀ u a, ok (u ++ [a]) → ok u

theorem Longest.nil {ok : List α → Prop} (h : ok []) : Longest ok [] [] :=
  ⟨List.suffix_refl _, h, fun _ hu _ => hu⟩

/-- Two suffixes of one list are comparable. -/
theorem suffix_or {u v l : List α} (hu : u <:+ l) (hv : v <:+ l) :
    v <:+ u ∨ ∃ a, a :: u <:+ v := by
  rcases Nat.le_total v.length u.length with h | h
  · exact Or.inl (List.suffix_of_suffix_length_le hv hu h)
  · obtain ⟨w, rfl⟩ := List.suffix_of_suffix_length_le hu hv h
    rcases List.eq_nil_or_concat w with rfl | ⟨w', a, rfl⟩
    · exact Or.inl (by simp)
    · exact Or.inr ⟨a, w', by simp⟩

/-- **Appending an entry.** If `u ++ [m]` has the property, and one more entry of the old longest
suffix in front of it would break the property, then `u ++ [m]` is the new longest suffix. -/
theorem Longest.append {ok : List α → Prop} (hok : Hereditary ok) {l t u : List α} {m : α}
    (h : Longest ok l t) (hu : u <:+ t) (hm : ok (u ++ [m]))
    (hmax : ∀ a, a :: u <:+ t → ¬ ok (a :: u ++ [m])) : Longest ok (l ++ [m]) (u ++ [m]) := by
  obtain ⟨p, hp⟩ := hu.trans h.suffix
  refine ⟨⟨p, by rw [← hp, List.append_assoc]⟩, hm, fun v hv hvok => ?_⟩
  rcases List.eq_nil_or_concat v with rfl | ⟨w, b, rfl⟩
  · exact List.nil_suffix
  obtain ⟨q, hq⟩ := hv
  rw [List.concat_eq_append, ← List.append_assoc] at hq
  obtain ⟨hwl, hb⟩ := List.append_inj' hq rfl
  rw [List.concat_eq_append] at hvok ⊢
  obtain rfl : b = m := by simpa using hb
  have hwt : w <:+ t := h.longest w ⟨q, hwl⟩ (hok.init w b hvok)
  rcases suffix_or hu hwt with ⟨r, hr⟩ | ⟨a, ha⟩
  · exact ⟨r, by rw [← hr, List.append_assoc]⟩
  · obtain ⟨r, hr⟩ := ha
    refine absurd (hok.suffix _ _ ⟨r, ?_⟩ hvok)
      (hmax a ((show a :: u <:+ w from ⟨r, hr⟩).trans hwt))
    rw [← hr, List.append_assoc]

/-- The entries at `n` places from `a` on. -/
theorem map_getD_range' (l : List α) (d : α) {a n : ℕ} (h : a + n ≤ l.length) :
    ((List.range' a n).map fun i => l.getD i d) = (l.drop a).take n := by
  refine List.ext_getElem (by simp; omega) fun i h1 h2 => ?_
  have hi : a + i < l.length := by
    simp only [List.length_map, List.length_range'] at h1
    omega
  simp [List.getElem?_eq_getElem hi]

end Ach.Lib.Suffix
