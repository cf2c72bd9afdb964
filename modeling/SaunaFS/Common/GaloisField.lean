import Mathlib

/-! Arithmetic in GF(2^8) as the erasure coder computes it
(`src/common/galois_coeff.h`, `galois_field_isal.cc`).

The field is the bytes with `^` as addition and multiplication modulo
x^8 + x^4 + x^3 + x^2 + 1 (the reduction constant `0x1d`). The coder multiplies
through discrete-logarithm tables of the generator 2, which `galois_coeff.h`
builds at compile time by iterating `gf_mul2`. Everything below rests on two
computed facts about that iteration: 2 has order 255, and multiplying by 2 is
additive. From them the tables are shown to be inverse bijections between the
exponents and the nonzero bytes, and the table multiplication is shown to be
the multiplication of a field (`GF`).
-/

set_option autoImplicit false

namespace SaunaFS

/-- `detail::gf_mul2`: multiplication by 2. -/
def gfMul2 (x : UInt8) : UInt8 :=
  (x <<< 1) ^^^ (if x &&& 0x80 != 0 then 0x1d else 0)

/-- `detail::gf_log`: the least `n ≥ 1` with `2^n = x`. The source recursion is
unbounded (it is only evaluated at nonzero arguments); 255 steps reach every
such `n`. -/
def gfLog (x : UInt8) : UInt8 := go 255 2 1
where
  go : Nat → UInt8 → Nat → UInt8
    | 0, _, n => n.toUInt8
    | fuel + 1, pow2n, n => if x == pow2n then n.toUInt8 else go fuel (gfMul2 pow2n) (n + 1)

/-- `detail::gf_exp`: `2^x` for `x ≥ 1`. -/
def gfExp (x : UInt8) : UInt8 := go 255 2 1
where
  go : Nat → UInt8 → Nat → UInt8
    | 0, pow2n, _ => pow2n
    | fuel + 1, pow2n, n => if x.toNat == n then pow2n else go fuel (gfMul2 pow2n) (n + 1)

/-- `gf_log_table`: `{0, gf_log(1), ..., gf_log(255)}`. -/
def gfLogTable (a : UInt8) : UInt8 := if a = 0 then 0 else gfLog a

/-- `gf_exp_table`: `{1, gf_exp(1), ..., gf_exp(255)}`, read at indices up to 255. -/
def gfExpTable (i : Nat) : UInt8 := if i = 0 then 1 else gfExp i.toUInt8

/-- `gf_mul`. -/
def gfMul (a b : UInt8) : UInt8 :=
  if a = 0 ∨ b = 0 then 0
  else
    let i := (gfLogTable a).toNat + (gfLogTable b).toNat
    gfExpTable (if i > 254 then i - 255 else i)

/-- `gf_inv`. -/
def gfInv (a : UInt8) : UInt8 :=
  if a = 0 then 0 else gfExpTable (255 - (gfLogTable a).toNat)

/-! ## Multiplication by 2 -/

theorem and_0x80_cases (x : UInt8) : x &&& 0x80 = 0 ∨ x &&& 0x80 = 0x80 := by
  revert x
  decide +kernel

theorem xor_and_0x80 (x y : UInt8) : (x ^^^ y) &&& 0x80 = (x &&& 0x80) ^^^ (y &&& 0x80) := by
  apply UInt8.toNat_inj.mp
  simp [UInt8.toNat_and, UInt8.toNat_xor, Nat.and_xor_distrib_right]

theorem gfMul2_xor (x y : UInt8) : gfMul2 (x ^^^ y) = gfMul2 x ^^^ gfMul2 y := by
  -- the reduction constant is added exactly when one of the two top bits is set
  have reduce : (if (x ^^^ y) &&& 0x80 != 0 then (0x1d : UInt8) else 0) =
      (if x &&& 0x80 != 0 then 0x1d else 0) ^^^ (if y &&& 0x80 != 0 then 0x1d else 0) := by
    rw [xor_and_0x80]
    rcases and_0x80_cases x with hx | hx <;> rcases and_0x80_cases y with hy | hy <;>
      simp [hx, hy]
  unfold gfMul2
  rw [UInt8.shiftLeft_xor, reduce]
  ac_rfl

@[simp] theorem gfMul2_zero : gfMul2 0 = 0 := rfl

theorem gfMul2_eq_zero {x : UInt8} (zero : gfMul2 x = 0) : x = 0 := by
  revert x
  decide +kernel

theorem gfMul2_injective : Function.Injective gfMul2 := by
  intro x y same
  have : gfMul2 (x ^^^ y) = 0 := by rw [gfMul2_xor, same, UInt8.xor_self]
  simpa using gfMul2_eq_zero this

theorem gfMul2_iterate_xor (n : Nat) (x y : UInt8) :
    gfMul2^[n] (x ^^^ y) = gfMul2^[n] x ^^^ gfMul2^[n] y := by
  induction n generalizing x y with
  | zero => rfl
  | succ n ih => simp only [Function.iterate_succ_apply, gfMul2_xor, ih]

@[simp] theorem gfMul2_iterate_zero (n : Nat) : gfMul2^[n] 0 = 0 :=
  Function.iterate_fixed gfMul2_zero n

/-! ## Powers of the generator -/

/-- `2^n`, by iterating `gf_mul2` from 1. -/
def pow2 (n : Nat) : UInt8 := gfMul2^[n] 1

theorem pow2_succ (n : Nat) : pow2 (n + 1) = gfMul2 (pow2 n) :=
  Function.iterate_succ_apply' gfMul2 n 1

theorem pow2_add (s t : Nat) : pow2 (s + t) = gfMul2^[s] (pow2 t) := by
  rw [pow2, Function.iterate_add_apply]
  rfl

theorem pow2_255 : pow2 255 = 1 := by decide +kernel

theorem pow2_ne_one_below {t : Nat} (positive : 0 < t) (below : t < 255) : pow2 t ≠ 1 := by
  have orbit : ((List.iterate gfMul2 1 255).tail.all (· != 1)) = true := by decide +kernel
  rw [List.all_eq_true] at orbit
  have member : pow2 t ∈ (List.iterate gfMul2 1 255).tail := by
    rw [List.mem_iff_getElem]
    refine ⟨t - 1, by simp only [List.length_tail, List.length_iterate]; omega, ?_⟩
    rw [List.getElem_tail, List.getElem_iterate, Nat.sub_add_cancel positive, pow2]
  simpa using orbit _ member

theorem pow2_mod (n : Nat) : pow2 n = pow2 (n % 255) := by
  induction n using Nat.strong_induction_on with
  | _ n ih =>
    by_cases small : n < 255
    · rw [Nat.mod_eq_of_lt small]
    · calc pow2 n = pow2 ((n - 255) + 255) := by rw [Nat.sub_add_cancel (by omega)]
        _ = pow2 (n - 255) := by rw [pow2_add, pow2_255, pow2]
        _ = pow2 ((n - 255) % 255) := ih _ (by omega)
        _ = pow2 (n % 255) := by rw [show (n - 255) % 255 = n % 255 by omega]

theorem pow2_ne_zero (n : Nat) : pow2 n ≠ 0 := by
  induction n with
  | zero => exact fun zero => by cases zero
  | succ n ih => exact fun zero => ih (gfMul2_eq_zero (pow2_succ n ▸ zero))

theorem pow2_injOn {s t : Nat} (hs : s < 255) (ht : t < 255) (same : pow2 s = pow2 t) : s = t := by
  -- cancel the common factor `2^min` and compare what is left with the order 255
  wlog le : s ≤ t generalizing s t
  · exact (this ht hs same.symm (by omega)).symm
  have cancel : pow2 (t - s) = 1 := by
    apply Function.Injective.iterate gfMul2_injective s
    rw [← pow2_add, Nat.add_sub_cancel' le, ← same, pow2]
  by_contra ne
  exact pow2_ne_one_below (by omega) (by omega) cancel

theorem pow2_eq_pow2_iff (s t : Nat) : pow2 s = pow2 t ↔ s % 255 = t % 255 := by
  constructor
  · intro same
    rw [pow2_mod s, pow2_mod t] at same
    exact pow2_injOn (Nat.mod_lt _ (by decide)) (Nat.mod_lt _ (by decide)) same
  · intro same
    rw [pow2_mod s, pow2_mod t, same]

theorem exists_pow2 {x : UInt8} (nonzero : x ≠ 0) : ∃ n < 255, pow2 n = x := by
  -- the 255 powers below the order are distinct nonzero bytes, so they are all of them
  have into : (Finset.range 255).image pow2 ⊆ Finset.univ.erase 0 := by
    intro y member
    obtain ⟨n, -, rfl⟩ := Finset.mem_image.mp member
    exact Finset.mem_erase.mpr ⟨pow2_ne_zero n, Finset.mem_univ _⟩
  have card : ((Finset.range 255).image pow2).card = 255 := by
    rw [Finset.card_image_of_injOn (fun s hs t ht => pow2_injOn (by simpa using hs) (by simpa using ht)),
      Finset.card_range]
  have all : (Finset.range 255).image pow2 = Finset.univ.erase 0 :=
    Finset.eq_of_subset_of_card_le into (by
      rw [card, Finset.card_erase_of_mem (Finset.mem_univ _), Finset.card_univ,
        ← FinEnum.card_eq_fintypeCard]
      rfl)
  have : x ∈ (Finset.range 255).image pow2 := by
    rw [all]
    exact Finset.mem_erase.mpr ⟨nonzero, Finset.mem_univ _⟩
  simpa using this

/-! ## The tables -/

theorem gfExp_go {x : UInt8} : ∀ (fuel n : Nat), n ≤ x.toNat → x.toNat < n + fuel →
    gfExp.go x fuel (pow2 n) n = pow2 x.toNat
  | 0, _, _, lt => by omega
  | fuel + 1, n, le, lt => by
    by_cases hit : x.toNat = n
    · simp [gfExp.go, hit]
    · rw [gfExp.go, if_neg (by simpa using hit), ← pow2_succ]
      exact gfExp_go fuel (n + 1) (by omega) (by omega)

theorem gfExpTable_eq {i : Nat} (le : i ≤ 255) : gfExpTable i = pow2 i := by
  unfold gfExpTable
  split
  · next zero => rw [zero]; rfl
  · next positive =>
    have same : i.toUInt8.toNat = i := by simp; omega
    unfold gfExp
    rw [show (2 : UInt8) = pow2 1 from rfl, gfExp_go 255 1 (by omega) (by omega), same]

theorem gfLog_go {x : UInt8} {m : Nat} (hit : pow2 m = x)
    (first : ∀ j, 0 < j → j < m → pow2 j ≠ x) :
    ∀ (fuel n : Nat), 0 < n → n ≤ m → m < n + fuel → gfLog.go x fuel (pow2 n) n = m.toUInt8
  | 0, _, _, _, lt => by omega
  | fuel + 1, n, positive, le, lt => by
    by_cases reached : n = m
    · subst reached
      rw [gfLog.go, hit, beq_self_eq_true, if_pos rfl]
    · have miss : (x == pow2 n) = false := by
        rw [beq_eq_false_iff_ne]
        exact fun same => first n positive (by omega) same.symm
      rw [gfLog.go, miss, if_neg Bool.false_ne_true, ← pow2_succ]
      exact gfLog_go hit first fuel (n + 1) (by omega) (by omega) (by omega)

/-- The logarithm table inverts the powers: the least positive exponent of a
nonzero byte. -/
theorem gfLogTable_spec {a : UInt8} (nonzero : a ≠ 0) :
    0 < (gfLogTable a).toNat ∧ (gfLogTable a).toNat ≤ 255 ∧ pow2 (gfLogTable a).toNat = a := by
  obtain ⟨n, below, rfl⟩ := exists_pow2 nonzero
  -- the least positive exponent is `n`, or the order 255 when `n = 0`
  obtain ⟨m, hit, first, positive, le⟩ : ∃ m, pow2 m = pow2 n ∧
      (∀ j, 0 < j → j < m → pow2 j ≠ pow2 n) ∧ 0 < m ∧ m ≤ 255 := by
    by_cases zero : n = 0
    · refine ⟨255, by rw [zero, pow2_255]; rfl, ?_, by omega, le_refl _⟩
      intro j _ lt same
      have := pow2_injOn (by omega) below same
      omega
    · refine ⟨n, rfl, ?_, by omega, by omega⟩
      intro j _ lt same
      have := pow2_injOn (by omega) below same
      omega
  have log : gfLogTable (pow2 n) = m.toUInt8 := by
    rw [gfLogTable, if_neg nonzero, gfLog, show (2 : UInt8) = pow2 1 from rfl]
    exact gfLog_go hit first 255 1 (by omega) (by omega) (by omega)
  have same : m.toUInt8.toNat = m := by simp; omega
  rw [log, same]
  exact ⟨positive, le, hit⟩

theorem eq_pow2_log {a : UInt8} (nonzero : a ≠ 0) : a = pow2 (gfLogTable a).toNat :=
  (gfLogTable_spec nonzero).2.2.symm

/-! ## Table multiplication -/

theorem gfMul_zero_left (b : UInt8) : gfMul 0 b = 0 := by simp [gfMul]

theorem gfMul_zero_right (a : UInt8) : gfMul a 0 = 0 := by simp [gfMul]

theorem gfMul_pow2 (s t : Nat) : gfMul (pow2 s) (pow2 t) = pow2 (s + t) := by
  have ls := gfLogTable_spec (pow2_ne_zero s)
  have lt := gfLogTable_spec (pow2_ne_zero t)
  -- the logarithms agree with `s` and `t` up to the order
  have congS := (pow2_eq_pow2_iff _ _).mp ls.2.2
  have congT := (pow2_eq_pow2_iff _ _).mp lt.2.2
  rw [gfMul, if_neg (by simp [pow2_ne_zero])]
  simp only
  split
  · rw [gfExpTable_eq (by omega), pow2_eq_pow2_iff]
    omega
  · rw [gfExpTable_eq (by omega), pow2_eq_pow2_iff]
    omega

theorem gfMul_eq_zero {a b : UInt8} : gfMul a b = 0 ↔ a = 0 ∨ b = 0 := by
  constructor
  · intro zero
    by_contra nonzero
    rw [not_or] at nonzero
    rw [eq_pow2_log nonzero.1, eq_pow2_log nonzero.2, gfMul_pow2] at zero
    exact pow2_ne_zero _ zero
  · rintro (rfl | rfl)
    · exact gfMul_zero_left b
    · exact gfMul_zero_right a

theorem gfMul_comm (a b : UInt8) : gfMul a b = gfMul b a := by
  unfold gfMul
  simp only [or_comm, Nat.add_comm]

/-- Multiplying by `2^s` is `s` multiplications by 2. -/
theorem gfMul_pow2_left (s : Nat) (x : UInt8) : gfMul (pow2 s) x = gfMul2^[s] x := by
  by_cases zero : x = 0
  · rw [zero, gfMul_zero_right, gfMul2_iterate_zero]
  · rw [eq_pow2_log zero, gfMul_pow2, pow2_add]

theorem gfMul_assoc (a b c : UInt8) : gfMul (gfMul a b) c = gfMul a (gfMul b c) := by
  by_cases za : a = 0
  · simp [za, gfMul_zero_left]
  by_cases zb : b = 0
  · simp [zb, gfMul_zero_left, gfMul_zero_right]
  by_cases zc : c = 0
  · simp [zc, gfMul_zero_right]
  rw [eq_pow2_log za, eq_pow2_log zb, eq_pow2_log zc]
  simp only [gfMul_pow2, Nat.add_assoc]

theorem gfMul_xor (a x y : UInt8) : gfMul a (x ^^^ y) = gfMul a x ^^^ gfMul a y := by
  by_cases za : a = 0
  · simp [za, gfMul_zero_left]
  rw [eq_pow2_log za]
  simp only [gfMul_pow2_left, gfMul2_iterate_xor]

theorem gfMul_one (a : UInt8) : gfMul a 1 = a := by
  by_cases za : a = 0
  · simp [za, gfMul_zero_left]
  rw [eq_pow2_log za, show (1 : UInt8) = pow2 0 from rfl, gfMul_pow2]
  rfl

theorem gfMul_gfInv {a : UInt8} (nonzero : a ≠ 0) : gfMul a (gfInv a) = 1 := by
  have la := gfLogTable_spec nonzero
  rw [gfInv, if_neg nonzero, gfExpTable_eq (by omega)]
  conv => lhs; arg 1; rw [eq_pow2_log nonzero]
  rw [gfMul_pow2, Nat.add_sub_cancel' la.2.1, pow2_255]

/-! ## The field -/

/-- A byte read as an element of GF(2^8): `^` adds, `gf_mul` multiplies. -/
structure GF where
  val : UInt8
  deriving DecidableEq, Repr

namespace GF

instance : Zero GF := ⟨⟨0⟩⟩
instance : One GF := ⟨⟨1⟩⟩
instance : Add GF := ⟨fun a b => ⟨a.val ^^^ b.val⟩⟩
instance : Neg GF := ⟨fun a => a⟩
instance : Sub GF := ⟨fun a b => ⟨a.val ^^^ b.val⟩⟩
instance : Mul GF := ⟨fun a b => ⟨gfMul a.val b.val⟩⟩
instance : Inv GF := ⟨fun a => ⟨gfInv a.val⟩⟩

@[simp] theorem val_zero : (0 : GF).val = 0 := rfl
@[simp] theorem val_one : (1 : GF).val = 1 := rfl
@[simp] theorem val_add (a b : GF) : (a + b).val = a.val ^^^ b.val := rfl
@[simp] theorem val_neg (a : GF) : (-a).val = a.val := rfl
@[simp] theorem val_sub (a b : GF) : (a - b).val = a.val ^^^ b.val := rfl
@[simp] theorem val_mul (a b : GF) : (a * b).val = gfMul a.val b.val := rfl
@[simp] theorem val_inv (a : GF) : a⁻¹.val = gfInv a.val := rfl

theorem ext' {a b : GF} (same : a.val = b.val) : a = b := by
  cases a; cases b; cases same; rfl

theorem add_assoc' (a b c : GF) : a + b + c = a + (b + c) := ext' (UInt8.xor_assoc _ _ _)
theorem zero_add' (a : GF) : 0 + a = a := ext' (by simp)
theorem add_zero' (a : GF) : a + 0 = a := ext' (by simp)
theorem add_comm' (a b : GF) : a + b = b + a := ext' (UInt8.xor_comm _ _)
theorem neg_add_cancel' (a : GF) : -a + a = 0 := ext' (by simp)
theorem mul_assoc' (a b c : GF) : a * b * c = a * (b * c) := ext' (gfMul_assoc _ _ _)
theorem mul_comm' (a b : GF) : a * b = b * a := ext' (gfMul_comm _ _)
theorem mul_one' (a : GF) : a * 1 = a := ext' (gfMul_one _)
theorem one_mul' (a : GF) : 1 * a = a := by rw [mul_comm', mul_one']
theorem zero_mul' (a : GF) : 0 * a = 0 := ext' (gfMul_zero_left a.val)
theorem mul_zero' (a : GF) : a * 0 = 0 := ext' (gfMul_zero_right a.val)
theorem left_distrib' (a b c : GF) : a * (b + c) = a * b + a * c := ext' (gfMul_xor _ _ _)
theorem right_distrib' (a b c : GF) : (a + b) * c = a * c + b * c := by
  rw [mul_comm', left_distrib', mul_comm' c, mul_comm' c]
theorem mul_inv_cancel' (a : GF) (nonzero : a ≠ 0) : a * a⁻¹ = 1 :=
  ext' (gfMul_gfInv fun zero => nonzero (ext' zero))
theorem inv_zero' : (0 : GF)⁻¹ = 0 := ext' (by simp [gfInv])

instance : CommRing GF where
  add_assoc := add_assoc'
  zero_add := zero_add'
  add_zero := add_zero'
  add_comm := add_comm'
  neg_add_cancel := neg_add_cancel'
  sub_eq_add_neg _ _ := rfl
  nsmul := nsmulRec
  zsmul := zsmulRec
  mul_assoc := mul_assoc'
  one_mul := one_mul'
  mul_one := mul_one'
  zero_mul := zero_mul'
  mul_zero := mul_zero'
  left_distrib := left_distrib'
  right_distrib := right_distrib'
  mul_comm := mul_comm'

instance : Field GF where
  exists_pair_ne := ⟨0, 1, fun same => by cases same⟩
  mul_inv_cancel := mul_inv_cancel'
  inv_zero := inv_zero'
  nnqsmul := _
  nnqsmul_def := fun _ _ => rfl
  qsmul := _
  qsmul_def := fun _ _ => rfl

end GF

end SaunaFS
