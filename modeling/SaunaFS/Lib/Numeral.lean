import Mathlib.Data.Nat.Digits.Defs
import Mathlib.Tactic.Ring

/-! Numerals as a C++ stream prints them and `strtoull` reads them back.
`numeral base n` is `os << n` in a base up to 16 with `std::uppercase`: the
digits of `Nat.toDigits`, upper case. `padded` is `std::setw` with
`std::setfill('0')`. `value` is the number `strtoull` accumulates over a run of
digits. A numeral reads back as its number, also after padding; it has no
leading zero unless it is `0`, and each of its characters is a digit of its base.
-/

set_option autoImplicit false

namespace Numeral

/-- `os << n` in base `base`, upper-case digits. -/
def numeral (base n : Nat) : List Char := (Nat.toDigits base n).map Char.toUpper

/-- `std::setw(width)` with `std::setfill('0')`: zeros in front up to `width`. -/
def padded (width : Nat) (s : List Char) : List Char := List.replicate (width - s.length) '0' ++ s

/-- The digit a character stands for: `0`-`9`, then `A`-`F`. -/
def digitValue (c : Char) : Nat := if c.toNat < 58 then c.toNat - 48 else c.toNat - 55

/-- The number `strtoull` accumulates over a run of digits. -/
def value (base : Nat) (s : List Char) : Nat := s.foldl (fun acc c => acc * base + digitValue c) 0

/-! ## Reading back -/

theorem value_append (base : Nat) (s t : List Char) :
    value base (s ++ t) = value base s * base ^ t.length + value base t := by
  induction t generalizing s with
  | nil => simp [value]
  | cons c t ih =>
    -- both sides go through the prefix with `c` appended
    have front : value base (s ++ [c]) = value base s * base + digitValue c := by
      simp [value, List.foldl_append]
    have single : value base [c] = digitValue c := by simp [value]
    rw [← List.singleton_append, ← List.append_assoc, ih, front, ih [c], single, List.length_append,
      List.length_singleton, pow_add, pow_one]
    ring

theorem value_replicate_zero (base k : Nat) : value base (List.replicate k '0') = 0 := by
  induction k with
  | zero => rfl
  | succ k ih =>
    rw [List.replicate_succ', value_append, ih]
    simp [value, digitValue]

theorem value_padded (base width : Nat) (s : List Char) : value base (padded width s) = value base s := by
  rw [padded, value_append, value_replicate_zero, Nat.zero_mul, Nat.zero_add]

theorem digitValue_digit : ∀ d < 16, digitValue (Nat.digitChar d).toUpper = d := by decide

theorem toDigitsCore_ne_nil {base fuel n : Nat} {ds : List Char} (kept : ds ≠ [] ∨ 0 < fuel) :
    Nat.toDigitsCore base fuel n ds ≠ [] := by
  induction fuel generalizing n ds with
  | zero => simpa [Nat.toDigitsCore] using kept
  | succ fuel ih =>
    unfold Nat.toDigitsCore
    dsimp only
    split
    · exact List.cons_ne_nil _ _
    · exact ih (.inl (List.cons_ne_nil _ _))

theorem numeral_ne_nil (base n : Nat) : numeral base n ≠ [] := by
  have nonempty : Nat.toDigitsCore base (n + 1) n [] ≠ [] := toDigitsCore_ne_nil (.inr (Nat.succ_pos n))
  simpa [numeral, Nat.toDigits] using nonempty

section Base

variable {base : Nat} (large : 2 ≤ base) (small : base ≤ 16)
include large small

/-- The digits `toDigitsCore` puts in front of `ds`, with enough fuel, read as `n`
followed by `ds`. -/
theorem value_toDigitsCore {fuel n : Nat} (enough : n < fuel) (ds : List Char) :
    value base ((Nat.toDigitsCore base fuel n ds).map Char.toUpper) =
      n * base ^ ds.length + value base (ds.map Char.toUpper) := by
  induction fuel generalizing n ds with
  | zero => omega
  | succ fuel ih =>
    have digit : digitValue (Nat.digitChar (n % base)).toUpper = n % base :=
      digitValue_digit _ (by have := Nat.mod_lt n (by omega : 0 < base); omega)
    have split : n = base * (n / base) + n % base := (Nat.div_add_mod n base).symm
    -- the last digit goes in front of `ds`, the rest of `n` is left to the recursion
    have front : value base ((Nat.digitChar (n % base) :: ds).map Char.toUpper) =
        n % base * base ^ ds.length + value base (ds.map Char.toUpper) := by
      rw [List.map_cons, ← List.singleton_append, value_append, List.length_map]
      simp [value, digit]
    unfold Nat.toDigitsCore
    dsimp only
    split
    next top =>
      rw [front, Nat.mod_eq_of_lt ((Nat.div_eq_zero_iff_lt (by omega)).mp top)]
    next more =>
      have positive : 0 < n := Nat.pos_of_ne_zero fun zero => more (by simp [zero])
      have below : n / base < fuel := by
        have := Nat.div_lt_self positive (by omega : 1 < base)
        omega
      rw [ih below, front, List.length_cons, pow_succ]
      conv_rhs => rw [split]
      ring

theorem value_numeral (n : Nat) : value base (numeral base n) = n := by
  have := value_toDigitsCore large small (Nat.lt_succ_self n) []
  simpa [numeral, Nat.toDigits, value] using this

/-- Each character of `toDigitsCore` is a digit of the base or one of `ds`. -/
theorem mem_toDigitsCore {fuel n : Nat} {ds : List Char} {c : Char} (mem : c ∈ Nat.toDigitsCore base fuel n ds) :
    c ∈ ds ∨ ∃ d < base, c = Nat.digitChar d := by
  induction fuel generalizing n ds with
  | zero => exact .inl mem
  | succ fuel ih =>
    unfold Nat.toDigitsCore at mem
    dsimp only at mem
    have digit : ∃ d < base, Nat.digitChar (n % base) = Nat.digitChar d := ⟨_, Nat.mod_lt n (by omega), rfl⟩
    split at mem
    · rcases List.mem_cons.mp mem with rfl | old
      · exact .inr digit
      · exact .inl old
    · rcases ih mem with new | found
      · rcases List.mem_cons.mp new with rfl | old
        · exact .inr digit
        · exact .inl old
      · exact .inr found

theorem mem_numeral {n : Nat} {c : Char} (mem : c ∈ numeral base n) : ∃ d < base, c = (Nat.digitChar d).toUpper := by
  obtain ⟨c, inner, rfl⟩ := List.mem_map.mp mem
  rcases mem_toDigitsCore large small inner with none | ⟨d, below, rfl⟩
  · simp at none
  · exact ⟨d, below, rfl⟩

/-- Only `0` is written with a leading zero. -/
theorem toDigitsCore_head {fuel n : Nat} (enough : n < fuel) (positive : 0 < n) (ds : List Char) :
    ∃ d, 0 < d ∧ d < base ∧ ∃ tail, Nat.toDigitsCore base fuel n ds = Nat.digitChar d :: tail := by
  induction fuel generalizing n ds with
  | zero => omega
  | succ fuel ih =>
    unfold Nat.toDigitsCore
    dsimp only
    split
    next top =>
      -- the leading digit is all of `n`
      have less : n < base := (Nat.div_eq_zero_iff_lt (by omega)).mp top
      exact ⟨n, positive, less, ds, by rw [Nat.mod_eq_of_lt less]⟩
    next more =>
      have below : n / base < fuel := by
        have := Nat.div_lt_self positive (by omega : 1 < base)
        omega
      exact ih below (Nat.pos_of_ne_zero more) _

theorem numeral_head {n : Nat} (positive : 0 < n) :
    ∃ d, 0 < d ∧ d < base ∧ ∃ tail, numeral base n = (Nat.digitChar d).toUpper :: tail := by
  obtain ⟨d, nonzero, below, tail, eq⟩ := toDigitsCore_head large small (Nat.lt_succ_self n) positive []
  exact ⟨d, nonzero, below, tail.map Char.toUpper, by rw [numeral, Nat.toDigits, eq, List.map_cons]⟩

end Base

theorem length_padded {width : Nat} {s : List Char} (fits : s.length ≤ width) : (padded width s).length = width := by
  simp [padded]
  omega

theorem length_numeral_le {base width n : Nat} (positive : 0 < width) (fits : n < base ^ width) :
    (numeral base n).length ≤ width := by
  simpa [numeral] using Nat.toDigits_length base n width positive fits

end Numeral
