import Mathlib.Data.Int.Basic
import Mathlib.Logic.Function.Basic
import Mathlib.Tactic.Linarith

/-! Memo tables indexed by a polynomial hash.

A polynomial hash folds `hash * base + c` reduced modulo `modulus` over a list of
coefficients. In 64-bit arithmetic the fold agrees with the same fold over the
integers as long as the largest value a step forms, `(modulus - 1) * base` plus
the largest coefficient, stays below `2 ^ 63` (`toInt_foldl_polyStep`).

A memo table maps each hash to one entry, an input with the answer stored for
it. A lookup answers only if the entry at the input's hash holds that very
input; a store overwrites the entry at the input's hash, so colliding inputs
evict each other. The table is faithful to a function `f` when every entry whose
input can be asked for holds `f`'s answer for it: then every answer a lookup
gives is `f`'s, and storing `f`'s answers keeps the table faithful.
-/

set_option autoImplicit false

namespace HashedMemo

/-! ## Polynomial hashes in 64-bit arithmetic -/

/-- One step of the hash, in 64-bit arithmetic. -/
def polyStep (base modulus : Int64) (hash c : Int64) : Int64 := (hash * base + c) % modulus

/-- One step of the hash over the integers. -/
def polyStepInt (base modulus : Int) (hash c : Int) : Int := (hash * base + c) % modulus

/-- The parameters under which a step on a hash below `modulus` and a coefficient
up to `bound` forms no value of `2 ^ 63` or more. -/
structure Fits (base modulus : Int64) (bound : Int) : Prop where
  base_pos : 0 < base.toInt
  modulus_pos : 0 < modulus.toInt
  no_overflow : (modulus.toInt - 1) * base.toInt + bound < 2 ^ 63

theorem toInt_of_nonneg_of_lt {x : Int} (nonneg : 0 ≤ x) (below : x < 2 ^ 63) : x.bmod (2 ^ 64) = x :=
  Int.bmod_eq_of_le (by omega) (by omega)

theorem polyStepInt_range (base : Int) {modulus : Int} (positive : 0 < modulus) (hash c : Int) :
    0 ≤ polyStepInt base modulus hash c ∧ polyStepInt base modulus hash c < modulus :=
  ⟨Int.emod_nonneg _ (by omega), Int.emod_lt_of_pos _ positive⟩

section Fits

variable {base modulus : Int64} {bound : Int} (fits : Fits base modulus bound)
include fits

theorem toInt_polyStep {hash c : Int64} (hashRange : 0 ≤ hash.toInt ∧ hash.toInt < modulus.toInt)
    (coeffRange : 0 ≤ c.toInt ∧ c.toInt ≤ bound) :
    (polyStep base modulus hash c).toInt = polyStepInt base.toInt modulus.toInt hash.toInt c.toInt := by
  have product_le : hash.toInt * base.toInt ≤ (modulus.toInt - 1) * base.toInt :=
    Int.mul_le_mul_of_nonneg_right (by omega) (le_of_lt fits.base_pos)
  have product_nonneg : 0 ≤ hash.toInt * base.toInt := Int.mul_nonneg hashRange.1 (le_of_lt fits.base_pos)
  have no_overflow := fits.no_overflow
  -- neither the product nor the sum wraps, and the remainder of a non-negative value is `%`
  have product : (hash * base).toInt = hash.toInt * base.toInt := by
    rw [Int64.toInt_mul, toInt_of_nonneg_of_lt product_nonneg (by omega)]
  have sum : (hash * base + c).toInt = hash.toInt * base.toInt + c.toInt := by
    rw [Int64.toInt_add, product, toInt_of_nonneg_of_lt (by omega) (by omega)]
  rw [polyStep, Int64.toInt_mod, sum, Int.tmod_eq_emod_of_nonneg (by omega), polyStepInt]

/-- The fold of the hash over coefficients up to `bound`, from a start below
`modulus`, never wraps: it is the fold over the integers. -/
theorem toInt_foldl_polyStep (coeffs : List Int64) {start : Int64}
    (startRange : 0 ≤ start.toInt ∧ start.toInt < modulus.toInt)
    (coeffRange : ∀ c ∈ coeffs, 0 ≤ c.toInt ∧ c.toInt ≤ bound) :
    (coeffs.foldl (polyStep base modulus) start).toInt =
      (coeffs.map Int64.toInt).foldl (polyStepInt base.toInt modulus.toInt) start.toInt := by
  induction coeffs generalizing start with
  | nil => rfl
  | cons c rest ih =>
    have step := toInt_polyStep fits startRange (coeffRange c List.mem_cons_self)
    have stepRange := polyStepInt_range base.toInt fits.modulus_pos start.toInt c.toInt
    rw [List.foldl_cons, List.map_cons, List.foldl_cons, ← step]
    exact ih (by rw [step]; exact stepRange) fun c' member => coeffRange c' (List.mem_cons_of_mem c member)

end Fits

theorem foldl_polyStepInt_range (base : Int) {modulus : Int} (positive : 0 < modulus) (coeffs : List Int) (start : Int)
    (startRange : 0 ≤ start ∧ start < modulus) :
    0 ≤ coeffs.foldl (polyStepInt base modulus) start ∧ coeffs.foldl (polyStepInt base modulus) start < modulus := by
  induction coeffs generalizing start with
  | nil => exact startRange
  | cons c rest ih => exact ih _ (polyStepInt_range base positive start c)

/-! ## Memo tables -/

/-- An entry of a memo table: an input and the answer stored for it. -/
structure Entry (α β : Type) where
  input : α
  answer : β

variable {κ α β : Type} [DecidableEq κ] [DecidableEq α]

/-- The answer of an entry for `a`: only if it holds `a` itself. -/
def Entry.find (entry : Entry α β) (a : α) : Option β :=
  if entry.input = a then some entry.answer else none

/-- Look `a` up at its hash. -/
def lookup (hash : α → κ) (table : κ → Entry α β) (a : α) : Option β := (table (hash a)).find a

/-- Store `b` for `a` at its hash, evicting what was there. -/
def store (hash : α → κ) (table : κ → Entry α β) (a : α) (b : β) : κ → Entry α β :=
  Function.update table (hash a) ⟨a, b⟩

theorem find_eq_some {entry : Entry α β} {a : α} {b : β} :
    entry.find a = some b ↔ entry.input = a ∧ entry.answer = b := by
  unfold Entry.find
  split_ifs with same <;> simp [same]

/-- Every entry whose input can be asked for holds `f`'s answer for it. -/
def Faithful (f : α → Option β) (asked : α → Prop) (table : κ → Entry α β) : Prop :=
  ∀ k, asked (table k).input → f (table k).input = some (table k).answer

section Faithful

variable {f : α → Option β} {asked : α → Prop} {table : κ → Entry α β}

omit [DecidableEq κ] [DecidableEq α] in
/-- A table filled with one entry that is never asked for is faithful. -/
theorem faithful_const {entry : Entry α β} (never : ¬ asked entry.input) : Faithful f asked fun _ : κ => entry :=
  fun _ asking => absurd asking never

omit [DecidableEq κ] in
/-- What a faithful table answers for a question is `f`'s answer. -/
theorem Faithful.lookup (faithful : Faithful f asked table) (hash : α → κ) {a : α} {b : β} (asking : asked a)
    (found : lookup hash table a = some b) : f a = some b := by
  obtain ⟨holds, answer⟩ := find_eq_some.mp found
  have stored := faithful (hash a) (by rw [holds]; exact asking)
  rw [holds, answer] at stored
  exact stored

omit [DecidableEq α] in
/-- Storing `f`'s answer keeps a table faithful. -/
theorem Faithful.store (faithful : Faithful f asked table) (hash : α → κ) {a : α} {b : β} (answer : f a = some b) :
    Faithful f asked (store hash table a b) := by
  intro k asking
  by_cases here : k = hash a
  · subst here
    simpa [HashedMemo.store] using answer
  · simp only [HashedMemo.store, Function.update_of_ne here] at asking ⊢
    exact faithful k asking

end Faithful

end HashedMemo
