import Mathlib.Data.Set.Lattice
import Mathlib.Order.CompletePartialOrder
import Mathlib.Order.Interval.Set.Defs

/-! # Regions that follow one another

A region is a run of consecutive addresses. Regions of which each starts where the one before ends
are disjoint, in order, and fill what lies between the start of the first and the end of the last
(`Tiles.ordered`, `Tiles.fills`). -/

namespace Ach.Lib.Tiling

/-- A run of addresses. -/
structure Region where
  start : ℕ
  length : ℕ
  deriving DecidableEq, Repr

/-- The first address after a region. -/
def Region.stop (r : Region) : ℕ := r.start + r.length

/-- The addresses of a region. -/
def Region.bytes (r : Region) : Set ℕ := Set.Ico r.start r.stop

theorem Region.mem_bytes {r : Region} {x : ℕ} : x ∈ r.bytes ↔ r.start ≤ x ∧ x < r.stop := Iff.rfl

/-- Regions of which the first ends before the second starts have no address in common. -/
theorem Region.disjoint_of_le {r r' : Region} (h : r.stop ≤ r'.start) :
    Disjoint r.bytes r'.bytes := by
  rw [Set.disjoint_left]
  intro x hx hx'
  rw [Region.mem_bytes] at hx hx'
  omega

/-- The regions start at `a`, follow one another, and end at `b`. -/
def Tiles : ℕ → List Region → ℕ → Prop
  | a, [], b => a = b
  | a, r :: rs, b => r.start = a ∧ Tiles r.stop rs b

theorem Tiles.le {rs : List Region} : ∀ {a b : ℕ}, Tiles a rs b → a ≤ b := by
  induction rs with
  | nil =>
    intro a b h
    exact Nat.le_of_eq h
  | cons r rs ih =>
    intro a b h
    obtain ⟨rfl, h⟩ := h
    have := ih h
    unfold Region.stop at this
    omega

/-- Every region lies between the two ends. -/
theorem Tiles.start_le {rs : List Region} :
    ∀ {a b : ℕ}, Tiles a rs b → ∀ r ∈ rs, a ≤ r.start ∧ r.stop ≤ b := by
  induction rs with
  | nil =>
    intro a b _ r hr
    simp at hr
  | cons q rs ih =>
    intro a b h r hr
    obtain ⟨rfl, h⟩ := h
    rcases List.mem_cons.mp hr with rfl | hr
    · exact ⟨le_rfl, h.le⟩
    · obtain ⟨h1, h2⟩ := ih h r hr
      unfold Region.stop at h1
      exact ⟨by omega, h2⟩

/-- **The regions are in order.** -/
theorem Tiles.ordered {rs : List Region} :
    ∀ {a b : ℕ}, Tiles a rs b → rs.Pairwise fun r r' => r.stop ≤ r'.start := by
  induction rs with
  | nil =>
    intro a b _
    exact .nil
  | cons r rs ih =>
    intro a b h
    obtain ⟨-, h⟩ := h
    exact .cons (fun r' hr' => (h.start_le r' hr').1) (ih h)

/-- **The regions leave no gap.** -/
theorem Tiles.fills {rs : List Region} :
    ∀ {a b : ℕ}, Tiles a rs b → (⋃ r ∈ rs, r.bytes) = Set.Ico a b := by
  induction rs with
  | nil =>
    rintro a b rfl
    simp
  | cons r rs ih =>
    intro a b h
    obtain ⟨rfl, h⟩ := h
    ext x
    have hrest : x ∈ (⋃ r ∈ rs, r.bytes) ↔ r.stop ≤ x ∧ x < b := by
      rw [ih h]
      exact Iff.rfl
    have hle := h.le
    have hstart : r.start ≤ r.stop := Nat.le_add_right _ _
    simp only [List.mem_cons, Set.iUnion_iUnion_eq_or_left, Set.mem_union, hrest, Set.mem_Ico,
      Region.mem_bytes]
    omega

end Ach.Lib.Tiling
