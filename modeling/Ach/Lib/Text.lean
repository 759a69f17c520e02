import Mathlib.Data.List.TakeWhile
import Mathlib.Data.Nat.Digits.Lemmas
import Mathlib.Tactic.IntervalCases

/-! # C strings

Text is a list of bytes. The functions of the C library that are used on it, in the C locale. -/

namespace Ach.Lib.Text

/-- The bytes of an ASCII text. -/
def ascii (s : String) : List UInt8 := s.toList.map fun c => UInt8.ofNat c.toNat

/-- The string in a buffer: up to the first zero byte. -/
def cString (buf : List UInt8) : List UInt8 := buf.takeWhile (· != 0)

def isDigit (b : UInt8) : Bool := 48 ≤ b && b ≤ 57

/-- A space or a tab. -/
def isBlank (b : UInt8) : Bool := b == 32 || b == 9

def isSpace (b : UInt8) : Bool := b == 32 || (9 ≤ b && b ≤ 13)

def toLower (b : UInt8) : UInt8 := if 65 ≤ b ∧ b ≤ 90 then b + 32 else b

/-- `strcasecmp` gives zero. -/
def strcaseEq (s t : List UInt8) : Bool := s.map toLower == t.map toLower

/-! ### Numbers -/

/-- A number in decimal, as `%d` and `%lu` print it. -/
def decimal (n : ℕ) : List UInt8 :=
  if n = 0 then [48] else ((Nat.digits 10 n).reverse).map fun d => UInt8.ofNat (48 + d)

/-- The number the leading digits stand for. -/
def leadingNumber (s : List UInt8) : ℕ :=
  (s.takeWhile isDigit).foldl (fun n b => 10 * n + (b.toNat - 48)) 0

/-- The sign (`true` for minus) and the text after it. -/
def splitSign (s : List UInt8) : Bool × List UInt8 :=
  match s with
  | 45 :: t => (true, t)
  | 43 :: t => (false, t)
  | t => (false, t)

/-- What a conversion gives: the value, and whether `errno` is set to `ERANGE`. -/
structure Converted (α : Type) where
  value : α
  erange : Bool

/-- `strtoul` in base 10. -/
def strtoul (s : List UInt8) : Converted ℕ :=
  let (neg, t) := splitSign (s.dropWhile isSpace)
  let n := leadingNumber t
  if 2 ^ 64 ≤ n then ⟨2 ^ 64 - 1, true⟩
  else ⟨if neg then (2 ^ 64 - n) % 2 ^ 64 else n, false⟩

/-- `strtol` in base 10. -/
def strtol (s : List UInt8) : Converted ℤ :=
  let (neg, t) := splitSign (s.dropWhile isSpace)
  let n : ℤ := leadingNumber t
  if neg then (if 2 ^ 63 < n then ⟨-2 ^ 63, true⟩ else ⟨-n, false⟩)
  else if 2 ^ 63 ≤ n then ⟨2 ^ 63 - 1, true⟩ else ⟨n, false⟩

/-- The conversion of a `long` to an `int`. -/
def toInt32 (i : ℤ) : ℤ := Int.bmod i (2 ^ 32)

/-! ### Printing and reading numbers -/

theorem isDigit_ofNat {d : ℕ} (h : d < 10) : isDigit (UInt8.ofNat (48 + d)) = true := by
  interval_cases d <;> decide

theorem toNat_ofNat_digit {d : ℕ} (h : d < 10) : (UInt8.ofNat (48 + d)).toNat - 48 = d := by
  interval_cases d <;> decide

theorem isDigit_of_mem_decimal {n : ℕ} {b : UInt8} (hb : b ∈ decimal n) : isDigit b = true := by
  unfold decimal at hb
  split_ifs at hb
  · rw [List.mem_singleton.mp hb]
    decide
  · obtain ⟨d, hd, rfl⟩ := List.mem_map.mp hb
    exact isDigit_ofNat (Nat.digits_lt_base (by omega) (List.mem_reverse.mp hd))

theorem decimal_ne_nil (n : ℕ) : decimal n ≠ [] := by
  unfold decimal
  split_ifs with h
  · simp
  · simpa using Nat.digits_ne_nil_iff_ne_zero.mpr h

theorem length_decimal_le {n : ℕ} (h : n < 2 ^ 64) : (decimal n).length ≤ 64 := by
  unfold decimal
  split_ifs with h0
  · simp
  · have hpow : n < 10 ^ 64 := h.trans (by norm_num)
    simpa using (Nat.digits_length_le_iff (by omega) n).mpr hpow

/-- **A printed number reads back**, up to what follows it. -/
theorem leadingNumber_decimal (n : ℕ) {t : List UInt8} (ht : t.takeWhile isDigit = []) :
    leadingNumber (decimal n ++ t) = n := by
  unfold leadingNumber
  rw [List.takeWhile_append_of_pos fun b hb => isDigit_of_mem_decimal hb, ht, List.append_nil]
  unfold decimal
  split_ifs with h
  · subst h; decide
  · rw [List.foldl_map, List.foldl_reverse]
    have hfold : ∀ ds : List ℕ, (∀ d ∈ ds, d < 10) →
        ds.foldr (fun d n => 10 * n + ((UInt8.ofNat (48 + d)).toNat - 48)) 0 =
          Nat.ofDigits 10 ds := by
      intro ds
      induction ds with
      | nil => intro _; rfl
      | cons d ds ih =>
        intro hds
        rw [List.foldr_cons, ih fun e he => hds e (List.mem_cons_of_mem d he),
          toNat_ofNat_digit (hds d List.mem_cons_self), Nat.ofDigits_cons]
        omega
    rw [hfold _ fun d hd => Nat.digits_lt_base (by omega) hd, Nat.ofDigits_digits]

/-- Neither space nor sign stands before a printed number. -/
theorem splitSign_decimal (n : ℕ) (t : List UInt8) :
    splitSign ((decimal n ++ t).dropWhile isSpace) = (false, decimal n ++ t) := by
  obtain ⟨b, d, hd⟩ := List.exists_cons_of_ne_nil (decimal_ne_nil n)
  have hb : isDigit b = true := isDigit_of_mem_decimal (n := n)
    (by rw [hd]; exact List.mem_cons_self)
  have hdigit : isSpace b = false ∧ b ≠ 45 ∧ b ≠ 43 := by
    simp only [isDigit, Bool.and_eq_true, decide_eq_true_eq, UInt8.le_iff_toNat_le] at hb
    simp only [isSpace, Bool.or_eq_false_iff, beq_eq_false_iff_ne, Bool.and_eq_false_iff,
      decide_eq_false_iff_not, UInt8.le_iff_toNat_le, ne_eq, ← UInt8.toNat_inj]
    simp only [UInt8.reduceToNat] at hb ⊢
    omega
  rw [hd, List.cons_append, List.dropWhile_cons_of_neg (by simp [hdigit.1])]
  unfold splitSign
  split
  · rename_i heq; exact absurd (List.cons.inj heq).1 hdigit.2.1
  · rename_i heq; exact absurd (List.cons.inj heq).1 hdigit.2.2
  · rfl

theorem strtoul_decimal {n : ℕ} (h : n < 2 ^ 64) : strtoul (decimal n) = ⟨n, false⟩ := by
  have hn := leadingNumber_decimal n (t := []) rfl
  have hs := splitSign_decimal n []
  rw [List.append_nil] at hn hs
  simp only [strtoul, hs, hn]
  rw [if_neg (by omega)]
  rfl

theorem strtol_decimal_append {n : ℕ} (h : n < 2 ^ 63) {t : List UInt8}
    (ht : t.takeWhile isDigit = []) : strtol (decimal n ++ t) = ⟨n, false⟩ := by
  simp only [strtol, splitSign_decimal, leadingNumber_decimal n ht, Bool.false_eq_true, if_false]
  rw [if_neg (by omega)]

theorem strtol_decimal {n : ℕ} (h : n < 2 ^ 63) : strtol (decimal n) = ⟨n, false⟩ := by
  have := strtol_decimal_append h (t := []) rfl
  rwa [List.append_nil] at this

end Ach.Lib.Text
