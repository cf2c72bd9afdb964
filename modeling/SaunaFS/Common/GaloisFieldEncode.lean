import SaunaFS.Common.GaloisField

/-! The table-driven multiply-accumulate of the erasure coder
(`src/common/galois_field_isal.cc`, `galois_field_encode.cc`).

`ec_init_tables` turns every coefficient `c` of a matrix into a 32-byte table:
`c` times each low nibble, then `c` times each high nibble. `ec_encode_data`
then computes each output byte as the sum (`^`) over the sources of the two
table entries of the source byte's nibbles. Since multiplication distributes
over `^`, that is the matrix times the sources, byte position by byte position
(`ecEncodeData_eq`). The tables are the 64-bit build's, which writes them as four
little-endian words; the SIMD variants of `ec_encode_data` are not modelled.
-/

set_option autoImplicit false

namespace SaunaFS

/-- `gf_vect_mul_init` (the branch for 64-bit words): byte `b` of the table of `c`. -/
def gfVectMulInit (c : UInt8) (b : Nat) : UInt8 :=
  let c2 := gfMul2 c
  let c4 := gfMul2 c2
  let c8 := gfMul2 c4
  let v1 := c.toUInt64 * 0x0100010001000100
  let v2 := c2.toUInt64 * 0x0101000001010000
  let v4 := c4.toUInt64 * 0x0101010100000000
  let v8 := c8.toUInt64 * 0x0101010101010101
  let v4 := v1 ^^^ v2 ^^^ v4
  let t0 := v4
  let t1 := v8 ^^^ v4
  let c17 := gfMul2 c8
  let c18 := gfMul2 c17
  let c20 := gfMul2 c18
  let c24 := gfMul2 c20
  let v10 := c17.toUInt64 * 0x0100010001000100
  let v20 := c18.toUInt64 * 0x0101000001010000
  let v40 := c20.toUInt64 * 0x0101010100000000
  let v80 := c24.toUInt64 * 0x0101010101010101
  let v40 := v10 ^^^ v20 ^^^ v40
  let t2 := v40
  let t3 := v80 ^^^ v40
  -- the table is the bytes of `t[0..3]` in memory order
  (([t0, t1, t2, t3].getD (b / 8) 0) >>> (8 * (b % 8)).toUInt64).toUInt8

/-- `ec_init_tables(k, rows, a, g_tbls)`: table `t` for coefficient `a[t]`, for
the `k * rows` coefficients of `a`; later tables keep their contents. -/
def ecInitTables (k rows : Nat) (a : Nat → GF) (gTbls : Nat → Nat → UInt8) : Nat → Nat → UInt8 :=
  fun t b => if t < rows * k then gfVectMulInit (a t).val b else gTbls t b

/-- `ec_encode_data_default(len, srcs, dests, v, src, dest)`: the `dests`
output buffers. -/
def ecEncodeData (len srcs dests : Nat) (v : Nat → Nat → UInt8) (src : List (List UInt8)) :
    List (List UInt8) :=
  (List.range dests).map fun l =>
    (List.range len).map fun i =>
      (List.range srcs).foldl
        (fun s j =>
          let a := (src.getD j []).getD i 0
          s ^^^ (v (l * srcs + j) (a &&& 0xF).toNat ^^^ v (l * srcs + j) (16 + (a >>> 4).toNat)))
        0

/-! ## Multiplying through the tables -/

/-- `c` times the byte `a`, one bit of `a` at a time. -/
def mulByBits (c a : UInt8) : UInt8 :=
  (List.range 8).foldl (fun s bit => if (a >>> bit.toUInt8) &&& 1 = 1 then s ^^^ gfMul2^[bit] c else s) 0

/-- The same fold with `1 <<< bit` in place of `c`'s multiples: the byte itself. -/
theorem eq_bits (a : UInt8) :
    a = (List.range 8).foldl
      (fun s bit => if (a >>> bit.toUInt8) &&& 1 = 1 then s ^^^ ((1 : UInt8) <<< bit.toUInt8) else s) 0 := by
  revert a
  decide +kernel

theorem shiftLeft_eq_pow2 : ∀ bit < 8, (1 : UInt8) <<< bit.toUInt8 = pow2 bit := by
  decide +kernel

theorem gfMul_eq_mulByBits (c a : UInt8) : gfMul c a = mulByBits c a := by
  -- distribute `c` over the bits of `a`, each bit being a power of the generator
  have fold : ∀ (l : List Nat) (acc : UInt8), (∀ bit ∈ l, bit < 8) →
      gfMul c (l.foldl (fun s bit => if (a >>> bit.toUInt8) &&& 1 = 1
          then s ^^^ ((1 : UInt8) <<< bit.toUInt8) else s) acc) =
        l.foldl (fun s bit => if (a >>> bit.toUInt8) &&& 1 = 1
          then s ^^^ gfMul2^[bit] c else s) (gfMul c acc) := by
    intro l
    induction l with
    | nil => intro acc _; rfl
    | cons bit rest ih =>
      intro acc below
      simp only [List.foldl_cons]
      rw [ih _ fun b member => below b (List.mem_cons_of_mem _ member)]
      congr 1
      split
      · rw [gfMul_xor, shiftLeft_eq_pow2 bit (below bit List.mem_cons_self), gfMul_comm c (pow2 bit),
          gfMul_pow2_left]
      · rfl
  conv => lhs; rw [eq_bits a]
  rw [fold _ 0 fun bit member => List.mem_range.mp member, gfMul_zero_right]
  rfl

/-- The table of `c` holds `c` times each low nibble, then `c` times each high
nibble. -/
theorem gfVectMulInit_eq_mulByBits : ∀ c : UInt8, ∀ b < 32,
    gfVectMulInit c b = mulByBits c (if b < 16 then b.toUInt8 else (b - 16).toUInt8 <<< 4) := by
  decide +kernel

theorem nibbles (a : UInt8) : a = (a &&& (0xF : UInt8)) ^^^ ((a >>> (4 : UInt8)) <<< (4 : UInt8)) := by
  revert a
  decide +kernel

theorem nibble_bounds (a : UInt8) : (a &&& 0xF).toNat < 16 ∧ (a >>> 4).toNat < 16 := by
  revert a
  decide +kernel

/-- Looking up the two nibbles of `a` in the table of `c` and adding gives `c * a`. -/
theorem gfVectMulInit_lookup (c a : UInt8) :
    gfVectMulInit c (a &&& 0xF).toNat ^^^ gfVectMulInit c (16 + (a >>> 4).toNat) = gfMul c a := by
  obtain ⟨low, high⟩ := nibble_bounds a
  rw [gfVectMulInit_eq_mulByBits c _ (by omega), gfVectMulInit_eq_mulByBits c _ (by omega),
    if_pos low, if_neg (by omega), ← gfMul_eq_mulByBits, ← gfMul_eq_mulByBits, ← gfMul_xor,
    Nat.add_sub_cancel_left]
  have round : ∀ x : UInt8, x.toNat.toUInt8 = x := fun _ => UInt8.ofNat_toNat
  conv => rhs; rw [nibbles a]
  rw [round, round]

/-! ## The multiply-accumulate -/

/-- Sums in `GF` are `^` folds of the bytes. -/
theorem foldl_xor_eq_sum (f : Nat → GF) (n : Nat) :
    (List.range n).foldl (fun s j => s ^^^ (f j).val) 0 = (∑ j ∈ Finset.range n, f j).val := by
  induction n with
  | zero => rfl
  | succ n ih =>
    rw [List.range_succ, List.foldl_append, List.foldl_cons, List.foldl_nil, ih, Finset.sum_range_succ]
    rfl

section Encode

variable {len srcs dests : Nat} {l i : Nat}

theorem ecEncodeData_length (v : Nat → Nat → UInt8) (src : List (List UInt8)) :
    (ecEncodeData len srcs dests v src).length = dests := by
  simp [ecEncodeData]

theorem ecEncodeData_getD (v : Nat → Nat → UInt8) (src : List (List UInt8)) (hl : l < dests) :
    (ecEncodeData len srcs dests v src).getD l [] =
      (List.range len).map fun i =>
        (List.range srcs).foldl
          (fun s j =>
            let a := (src.getD j []).getD i 0
            s ^^^ (v (l * srcs + j) (a &&& 0xF).toNat ^^^ v (l * srcs + j) (16 + (a >>> 4).toNat)))
          0 := by
  simp [ecEncodeData, List.getD_eq_getElem?_getD, hl]

/-- Output `l` reads only the tables `l * srcs + j` of its own row. -/
theorem ecEncodeData_congr {v v' : Nat → Nat → UInt8} (src : List (List UInt8))
    (same : ∀ t < dests * srcs, v t = v' t) :
    ecEncodeData len srcs dests v src = ecEncodeData len srcs dests v' src := by
  apply List.ext_getElem (by simp [ecEncodeData_length])
  intro l hl _
  rw [ecEncodeData_length] at hl
  rw [← List.getD_eq_getElem _ [], ← List.getD_eq_getElem _ [], ecEncodeData_getD v src hl,
    ecEncodeData_getD v' src hl]
  refine List.map_congr_left fun i _ => ?_
  refine List.foldl_ext _ _ _ fun s j member => ?_
  have row : l * srcs + j < dests * srcs := by
    have := List.mem_range.mp member
    nlinarith
  simp only [same _ row]

/-- With the tables of the coefficients `a`, output byte `i` of row `l` is row `l`
of `a` times byte `i` of the sources. -/
theorem ecEncodeData_eq (a : Nat → GF) (gTbls : Nat → Nat → UInt8) (src : List (List UInt8))
    (hl : l < dests) (hi : i < len) :
    ((ecEncodeData len srcs dests (ecInitTables srcs dests a gTbls) src).getD l []).getD i 0 =
      (∑ j ∈ Finset.range srcs, a (l * srcs + j) * ⟨(src.getD j []).getD i 0⟩).val := by
  rw [ecEncodeData_getD _ src hl, List.getD_eq_getElem?_getD, List.getElem?_map, List.getElem?_range hi,
    Option.map_some, Option.getD_some, ← foldl_xor_eq_sum]
  refine List.foldl_ext _ _ _ fun s j member => ?_
  have row : l * srcs + j < dests * srcs := by
    have := List.mem_range.mp member
    nlinarith
  simp only [ecInitTables, if_pos row, gfVectMulInit_lookup]
  rfl

end Encode

end SaunaFS
