import Mathlib.Data.List.Basic
import Mathlib.Tactic.Linarith

/-! # Circular windows

An array of length `N` used as a ring holds a *window* of an unbounded sequence `f`: the values
`f p` for `lo ≤ p < hi`, each at position `p % N`. A window has at most `N` entries, so that no two
of its entries share a position (`mod_ne`).

* `Window.push`: storing at `hi % N` extends a window that is not full.
* `Window.update`: storing at the position of an entry changes that entry only.
* `Window.rotate`: in a full window, storing at the position of the first entry drops it and
  appends a new one.
* `Window.blit`: copying a block without wrapping extends the window by the block.
* `Window.slice`, `Window.slice_wrap`: reading a block, in one piece or in two, reads the
  sequence. -/

namespace Ach.Lib.Ring

variable {α : Type}

/-- Different entries of a window have different positions. -/
theorem mod_ne {p q N : ℕ} (h : p < q) (hq : q < p + N) : p % N ≠ q % N := by
  intro he
  have hd : N ∣ q - p := Nat.dvd_of_mod_eq_zero (Nat.sub_mod_eq_zero_of_mod_eq he.symm)
  have := Nat.le_of_dvd (by omega) hd
  omega

/-- The first multiple of `N` after `p`. -/
theorem add_sub_mod (p : ℕ) {N : ℕ} (hN : 0 < N) : (p + (N - p % N)) % N = 0 := by
  have hdiv := Nat.div_add_mod p N
  have hlt := Nat.mod_lt p hN
  have hq : p + (N - p % N) = N * (p / N + 1) := by rw [Nat.mul_add, Nat.mul_one]; omega
  rw [hq, Nat.mul_mod_right]

/-- A full revolution passes every position. -/
theorem exists_mod_eq (lo : ℕ) {i N : ℕ} (hi : i < N) : ∃ p, lo ≤ p ∧ p < lo + N ∧ p % N = i := by
  have hdiv := Nat.div_add_mod lo N
  have hlt := Nat.mod_lt lo (show 0 < N by omega)
  rcases Nat.lt_or_ge i (lo % N) with h | h
  · refine ⟨N * (lo / N + 1) + i, ?_, ?_, by rw [Nat.mul_add_mod, Nat.mod_eq_of_lt hi]⟩ <;>
    · rw [Nat.mul_add, Nat.mul_one]; omega
  · exact ⟨N * (lo / N) + i, by omega, by omega, by rw [Nat.mul_add_mod, Nat.mod_eq_of_lt hi]⟩

/-- The array holds the entries `f p`, `lo ≤ p < hi`, each at `p` modulo its length. -/
structure Window (arr : List α) (lo hi : ℕ) (f : ℕ → α) : Prop where
  len : hi ≤ lo + arr.length
  get : ∀ p, lo ≤ p → p < hi → arr[p % arr.length]? = some (f p)

section
variable {arr : List α} {lo hi : ℕ} {f : ℕ → α} (h : Window arr lo hi f)
include h

theorem Window.mono {lo' hi' : ℕ} (hlo : lo ≤ lo') (hhi : hi' ≤ hi) : Window arr lo' hi' f :=
  ⟨by have := h.len; omega, fun p h1 h2 => h.get p (by omega) (by omega)⟩

theorem Window.congr {g : ℕ → α} (hg : ∀ p, lo ≤ p → p < hi → g p = f p) : Window arr lo hi g :=
  ⟨h.len, fun p h1 h2 => by rw [h.get p h1 h2, hg p h1 h2]⟩

theorem Window.push {g : ℕ → α} (hlt : hi < lo + arr.length) (hle : lo ≤ hi)
    (hg : ∀ p, lo ≤ p → p < hi → g p = f p) :
    Window (arr.set (hi % arr.length) (g hi)) lo (hi + 1) g := by
  have hN : 0 < arr.length := by omega
  refine ⟨by rw [List.length_set]; omega, fun p h1 h2 => ?_⟩
  rw [List.length_set]
  rcases Nat.lt_or_ge p hi with hp | hp
  · rw [List.getElem?_set_ne (mod_ne hp (by omega)).symm, h.get p h1 hp, hg p h1 hp]
  · have hpe : p = hi := by omega
    rw [hpe, List.getElem?_set_self (Nat.mod_lt _ hN)]

theorem Window.update {g : ℕ → α} {q : ℕ} (hq1 : lo ≤ q) (hq2 : q < hi)
    (hg : ∀ p, lo ≤ p → p < hi → p ≠ q → g p = f p) :
    Window (arr.set (q % arr.length) (g q)) lo hi g := by
  have hlen := h.len
  refine ⟨by rw [List.length_set]; exact hlen, fun p h1 h2 => ?_⟩
  rw [List.length_set]
  by_cases hp : p = q
  · rw [hp, List.getElem?_set_self (Nat.mod_lt _ (by omega))]
  · have hne : q % arr.length ≠ p % arr.length := by
      rcases Nat.lt_or_ge p q with hlt | hge
      · exact (mod_ne hlt (by omega)).symm
      · exact mod_ne (by omega) (by omega)
    rw [List.getElem?_set_ne hne, h.get p h1 h2, hg p h1 h2 hp]

/-- **Rotation.** A full window drops its first entry and appends one in its place. -/
theorem Window.rotate {g : ℕ → α} (hfull : hi = lo + arr.length) (hN : 0 < arr.length)
    (hg : ∀ p, lo + 1 ≤ p → p < hi → g p = f p) :
    Window (arr.set (lo % arr.length) (g hi)) (lo + 1) (hi + 1) g := by
  have hpos : hi % arr.length = lo % arr.length := by rw [hfull, Nat.add_mod_right]
  have := (h.mono (Nat.le_succ lo) le_rfl).push (g := g) (by omega) (by omega) hg
  rwa [hpos] at this

theorem Window.slice {p n : ℕ} (h1 : lo ≤ p) (h2 : p + n ≤ hi)
    (hoff : p % arr.length + n ≤ arr.length) :
    (arr.drop (p % arr.length)).take n = (List.range n).map fun j => f (p + j) := by
  refine List.ext_getElem? fun j => ?_
  rcases Nat.lt_or_ge j n with hj | hj
  · have hmod : (p + j) % arr.length = p % arr.length + j := by
      rw [Nat.add_mod, Nat.mod_eq_of_lt (show j < arr.length by omega), Nat.mod_eq_of_lt (by omega)]
    rw [List.getElem?_take_of_lt hj, List.getElem?_drop, ← hmod,
      h.get (p + j) (by omega) (by omega)]
    simp [hj]
  · rw [List.getElem?_eq_none (by simp; omega), List.getElem?_eq_none (by simp; omega)]

/-- Reading a block that runs over the end of the array, in two pieces. -/
theorem Window.slice_wrap {p n : ℕ} (hN : 0 < arr.length) (h1 : lo ≤ p) (h2 : p + n ≤ hi)
    (hn : arr.length - p % arr.length ≤ n) :
    (arr.drop (p % arr.length)).take (arr.length - p % arr.length) ++
      (arr.drop 0).take (n - (arr.length - p % arr.length)) =
      (List.range n).map fun j => f (p + j) := by
  have hlen := h.len
  have hlt := Nat.mod_lt p hN
  have hwrap := add_sub_mod p hN
  set e := arr.length - p % arr.length with he
  have ha := h.slice (p := p) (n := e) h1 (by omega) (by omega)
  have hb := h.slice (p := p + e) (n := n - e) (by omega) (by omega) (by rw [hwrap]; omega)
  rw [hwrap] at hb
  rw [ha, hb, show n = e + (n - e) by omega, List.range_add, List.map_append, List.map_map,
    show e + (n - e) - e = n - e by omega]
  congr 1
  exact List.map_congr_left fun j _ => by simp [Nat.add_assoc]

end

/-! ### Block copies -/

/-- The array after `n` values `g 0, …, g (n - 1)` were copied to the positions from `off` on. -/
def blit (arr : List α) (off : ℕ) (g : ℕ → α) : ℕ → List α
  | 0 => arr
  | n + 1 => (blit arr off g n).set (off + n) (g n)

@[simp] theorem length_blit (arr : List α) (off : ℕ) (g : ℕ → α) :
    ∀ n, (blit arr off g n).length = arr.length
  | 0 => rfl
  | n + 1 => by rw [blit, List.length_set, length_blit arr off g n]

theorem Window.blit {arr : List α} {lo hi : ℕ} {f g : ℕ → α} (h : Window arr lo hi f)
    (hle : lo ≤ hi) (hg : ∀ p, lo ≤ p → p < hi → g p = f p) :
    ∀ n, hi + n ≤ lo + arr.length → hi % arr.length + n ≤ arr.length →
      Window (blit arr (hi % arr.length) (fun j => g (hi + j)) n) lo (hi + n) g := by
  intro n
  induction n with
  | zero =>
    intro _ _
    exact h.congr hg
  | succ n ih =>
    intro hn hoff
    replace ih := ih (by omega) (by omega)
    have hmod : (hi + n) % arr.length = hi % arr.length + n := by
      rw [Nat.add_mod, Nat.mod_eq_of_lt (show n < arr.length by omega), Nat.mod_eq_of_lt (by omega)]
    have := ih.push (g := g) (by rw [length_blit]; omega) (by omega) (fun _ _ _ => rfl)
    rw [length_blit, hmod] at this
    exact this

end Ach.Lib.Ring
