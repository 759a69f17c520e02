import Mathlib.Tactic.Linarith
import Mathlib.Tactic.Ring

/-! # Unsigned 64-bit arithmetic on natural numbers

A `size_t` or `uint64_t` value is a natural number below `2 ^ 64`; the operations reduce modulo
`2 ^ 64` as the machine does. The lemmas say when an operation does not wrap. -/

namespace Ach.Lib.Word

/-- Unsigned addition. -/
def wadd (a b : ℕ) : ℕ := (a + b) % 2 ^ 64

/-- Unsigned subtraction. -/
def wsub (a b : ℕ) : ℕ := (a + (2 ^ 64 - b)) % 2 ^ 64

/-- Unsigned multiplication. -/
def wmul (a b : ℕ) : ℕ := a * b % 2 ^ 64

theorem wadd_eq {a b : ℕ} (h : a + b < 2 ^ 64) : wadd a b = a + b := Nat.mod_eq_of_lt h

theorem wmul_eq {a b : ℕ} (h : a * b < 2 ^ 64) : wmul a b = a * b := Nat.mod_eq_of_lt h

theorem wsub_eq {a b : ℕ} (hb : b ≤ a) (ha : a < 2 ^ 64) : wsub a b = a - b := by
  unfold wsub
  have h : a + (2 ^ 64 - b) = a - b + 2 ^ 64 := by omega
  rw [h, Nat.add_mod_right, Nat.mod_eq_of_lt (by omega)]

end Ach.Lib.Word
