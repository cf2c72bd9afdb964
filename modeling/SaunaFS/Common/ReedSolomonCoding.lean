import SaunaFS.Common.ReedSolomonCache

/-! What `ReedSolomon::encode` and `ReedSolomon::recover` write
(`src/common/reed_solomon.h`), over every sequence of calls on one object and
whatever tables its cache holds. Each parity part `encode` writes is its row of
the parity matrix times the data parts, a NULL data part counting as zeros
(`encode_parity`). When the available parts are a code word, each erased part
`recover` is asked for is written and is that part of the code word, on each of
its three paths: the encoding tables when no data part is erased, the needed
rows times the inverse of the available rows, or the needed rows of that
inverse when only data parts are needed (`recover_erased`).

Both proofs follow the data through the coder: the rows the key selects
(`selectRows`), the columns of the non-zero inputs (`reducedTables_read`), the
tables (`CacheHolds`) and the multiply-accumulate (`ecEncodeData_given`), which
is a sum over all parts where the NULL ones add nothing. For `recover`, any `k`
available rows of the generator are invertible (`availableRows_det_ne_zero`),
and each path's matrix times them gives the rows of the parts written.
-/

set_option autoImplicit false

namespace SaunaFS

open SystematicCode

/-- Byte `i` of part `j` as the coder reads it: a NULL part is all zeros. -/
def fragmentByte (fragments : Nat → Option (List UInt8)) (j i : Nat) : GF := ⟨((fragments j).getD []).getD i 0⟩

theorem fragmentByte_none {fragments : Nat → Option (List UInt8)} {j : Nat} (missing : fragments j = none) (i : Nat) :
    fragmentByte fragments j i = 0 := by
  simp [fragmentByte, missing]
  rfl

/-- Entry `(l, r)` of a matrix of `k` columns cut down to the columns `cols`, as
a flat array of `cols.length` columns. -/
def columnsOf (matrix : Nat → GF) (k : Nat) (cols : List Nat) : Nat → GF :=
  fun t => matrix (t / cols.length * k + cols.getD (t % cols.length) 0)

theorem columnsOf_apply (matrix : Nat → GF) (k : Nat) (cols : List Nat) {l j : Nat} (hj : j < cols.length) :
    columnsOf matrix k cols (l * cols.length + j) = matrix (l * k + cols.getD j 0) := by
  have row : (l * cols.length + j) / cols.length = l := by
    rw [Nat.mul_comm, Nat.mul_add_div (by omega), Nat.div_eq_of_lt hj, Nat.add_zero]
  have col : (l * cols.length + j) % cols.length = j := by
    rw [Nat.mul_comm, Nat.mul_add_mod, Nat.mod_eq_of_lt hj]
  simp only [columnsOf, row, col]

/-- The multiply-accumulate over the parts given, with the tables of `matrix` cut
down to their columns: row `q` of `matrix` times all `k` parts, a NULL part adding
nothing. -/
theorem ecEncodeData_given (matrix : Nat → GF) (gTbls : Nat → Nat → UInt8) (part : Nat → Option (List UInt8))
    {k n dataSize q i : Nat} (hq : q < n) (hi : i < dataSize) :
    ((ecEncodeData dataSize ((List.range k).filterMap part).length n
        (ecInitTables ((List.range k).filterMap part).length n
          (columnsOf matrix k ((List.range k).filter fun a => (part a).isSome)) gTbls)
        ((List.range k).filterMap part)).getD q []).getD i 0 =
      (∑ a ∈ Finset.range k, matrix (q * k + a) * fragmentByte part a i).val := by
  have count : ((List.range k).filterMap part).length = ((List.range k).filter fun a => (part a).isSome).length := by
    rw [List.length_filterMap_eq_countP, List.countP_eq_length_filter]
  rw [ecEncodeData_eq _ _ _ hq hi, count]
  -- term `t` reads the `t`-th part given, at its position among all parts
  have term : ∀ t ∈ Finset.range ((List.range k).filter fun a => (part a).isSome).length,
      columnsOf matrix k ((List.range k).filter fun a => (part a).isSome)
          (q * ((List.range k).filter fun a => (part a).isSome).length + t) *
        ⟨(((List.range k).filterMap part).getD t []).getD i 0⟩ =
      (fun a => matrix (q * k + a) * fragmentByte part a i) (((List.range k).filter fun a => (part a).isSome).getD t 0) := by
    intro t member
    rw [columnsOf_apply _ _ _ (Finset.mem_range.mp member),
      FlatArray.getD_filterMap part (List.range k) 0 [] (Finset.mem_range.mp member)]
    rfl
  rw [Finset.sum_congr rfl term, FlatArray.sum_getD_eq_sum_map (fun a => matrix (q * k + a) * fragmentByte part a i),
    FlatArray.sum_filter_range]
  refine congrArg GF.val (Finset.sum_congr rfl fun a _ => ?_)
  cases given : part a with
  | some fragment => simp
  | none => simp [fragmentByte_none given]

/-! ## The tables built for a key -/

/-- The tables read after `reducedTables`, whichever of its branches is taken:
those of the matrix cut down to the columns of the non-zero inputs. -/
theorem reducedTables_read (k : Nat) (needed nonZeroInput : ErasedMap) (matrix : Nat → GF)
    (gfTable : Nat → Nat → UInt8) (fits : k ≤ 64) (below : ∀ j, nonZeroInput.getLsbD j → j < k) {t : Nat}
    (ht : t < countBits needed * countBits nonZeroInput) :
    reducedTables k needed nonZeroInput matrix gfTable t =
      ecInitTables (countBits nonZeroInput) (countBits needed)
        (columnsOf matrix k ((List.range k).filter nonZeroInput.getLsbD)) gfTable t := by
  have count := countBits_eq nonZeroInput fits below
  unfold reducedTables
  rw [count] at ht ⊢
  -- table `t` is the coefficient of column `r` in row `q`
  have cpos : 0 < ((List.range k).filter nonZeroInput.getLsbD).length :=
    Nat.pos_of_ne_zero fun zero => by simp [zero] at ht
  obtain ⟨q, r, hr, rfl⟩ : ∃ q r, r < ((List.range k).filter nonZeroInput.getLsbD).length ∧
      t = q * ((List.range k).filter nonZeroInput.getLsbD).length + r :=
    ⟨t / _, t % _, Nat.mod_lt _ cpos, (Nat.div_add_mod' t _).symm⟩
  have hq : q < countBits needed := by
    by_contra late
    have : countBits needed * ((List.range k).filter nonZeroInput.getLsbD).length ≤
        q * ((List.range k).filter nonZeroInput.getLsbD).length :=
      Nat.mul_le_mul_right _ (Nat.le_of_not_lt late)
    omega
  have outside : q * ((List.range k).filter nonZeroInput.getLsbD).length + r <
      ((List.range k).filter nonZeroInput.getLsbD).length * countBits needed :=
    lt_of_lt_of_eq ht (Nat.mul_comm _ _)
  funext b
  split
  · -- the columns are packed by `selectColumns`
    simp only [ecInitTables]
    rw [if_pos outside, if_pos ht, columnsOf_apply _ _ _ hr, selectColumns_apply _ _ _ _ _ hq hr,
      List.getD_eq_getElem _ _ hr]
  · next all =>
    -- every column is a non-zero input: the matrix is read as it is
    have full : ((List.range k).filter nonZeroInput.getLsbD).length = k := by
      have := List.length_filter_le nonZeroInput.getLsbD (List.range k)
      rw [List.length_range] at this
      omega
    have every : (List.range k).filter nonZeroInput.getLsbD = List.range k :=
      List.filter_eq_self.mpr fun j member =>
        (List.length_filter_eq_length_iff.mp (by rw [full, List.length_range])) j member
    have column : r < k := full ▸ hr
    simp only [ecInitTables]
    rw [if_pos (lt_of_lt_of_eq outside (by rw [full])), if_pos ht, columnsOf_apply _ _ _ hr, every]
    simp [List.getD_eq_getElem?_getD, column]

/-! ## The generator of a reachable object -/

section Generator

variable {k m : Nat} {s : ReedSolomon} (inv : Invariant k m s)
include inv

theorem Invariant.rsMatrix_apply {r j : Nat} (hr : r < k + m) (hj : j < k) :
    s.rsMatrix (r * k + j) = generator (parityRows k m) ⟨r, hr⟩ ⟨j, hj⟩ := by
  have entry := congrFun (congrFun inv.code ⟨r, hr⟩) ⟨j, hj⟩
  simpa using entry

theorem Invariant.rsMatrix_parity {l j : Nat} (hl : l < m) (hj : j < k) :
    s.rsMatrix ((k + l) * k + j) = parityRows k m ⟨l, hl⟩ ⟨j, hj⟩ := by
  rw [inv.rsMatrix_apply (by omega) hj]
  exact generator_parity (parityRows k m) ⟨l, hl⟩ ⟨j, hj⟩

end Generator

/-! ## `encode` -/

section Encode

variable (dataFragments : Nat → Option (List UInt8)) {k m : Nat}

/-- The non-zero inputs of `encode` are the data parts given. -/
theorem encode_nonZeroInput (fits : k ≤ 64) :
    (List.range k).filter ((List.range k).foldl (encodeInputs dataFragments) (0, [])).1.getLsbD =
      (List.range k).filter fun j => (dataFragments j).isSome := by
  refine List.filter_congr fun j member => ?_
  have below := List.mem_range.mp member
  rw [foldl_encodeInputs_fst]
  simp [below, show j < 64 by omega]

/-- The rows `encode` needs are the parity rows, in order. -/
theorem encode_needed (fits : k + m ≤ 64) :
    (List.range (k + m)).filter ((List.range m).foldl (encodeParity k) (0, 0)).1.getLsbD =
      (List.range m).map (k + ·) := by
  have bits := (foldl_encodeParity k m).2
  rw [List.range_add, List.filter_append]
  have low : (List.range k).filter ((List.range m).foldl (encodeParity k) (0, 0)).1.getLsbD = [] :=
    List.filter_eq_nil_iff.mpr fun j member => by
      rw [bits]
      simp [List.mem_range.mp member]
  have high : ((List.range m).map (k + ·)).filter ((List.range m).foldl (encodeParity k) (0, 0)).1.getLsbD =
      (List.range m).map (k + ·) :=
    List.filter_eq_self.mpr fun j member => by
      obtain ⟨l, parity, rfl⟩ := List.mem_map.mp member
      have := List.mem_range.mp parity
      rw [bits]
      simp [this, show k + l < 64 by omega]
  rw [low, high, List.nil_append]

theorem countBits_encode_needed (fits : k + m ≤ 64) :
    countBits ((List.range m).foldl (encodeParity k) (0, 0)).1 = m := by
  have bits := (foldl_encodeParity k m).2
  rw [countBits_eq _ fits fun j set => by rw [bits] at set; simp at set; omega, encode_needed fits]
  simp

theorem countBits_encode_nonZeroInput (fits : k ≤ 64) :
    countBits ((List.range k).foldl (encodeInputs dataFragments) (0, [])).1 =
      ((List.range k).filterMap dataFragments).length := by
  rw [countBits_eq _ fits fun j set => by rw [foldl_encodeInputs_fst] at set; simp at set; omega,
    encode_nonZeroInput dataFragments fits, List.length_filterMap_eq_countP, List.countP_eq_length_filter]

/-- The tables `encode` reads: the parity rows of the generator cut down to the
columns of the data parts given, whatever the cache held before the call. -/
theorem encode_tables {k m : Nat} (fits : k + m ≤ 64) {s : ReedSolomon} (inv : Invariant k m s)
    (dataFragments : Nat → Option (List UInt8)) (dataSize : Nat) {t : Nat}
    (ht : t < m * ((List.range k).filterMap dataFragments).length) :
    (encode s dataFragments dataSize).1.gfTable t =
      ecInitTables ((List.range k).filterMap dataFragments).length m
        (columnsOf (selectRows (fun _ => 0) s.rsMatrix (k + m) k ((List.range m).foldl (encodeParity k) (0, 0)).1) k
          ((List.range k).filter fun j => (dataFragments j).isSome)) s.gfTable t := by
  have spec := (encode_spec inv.cache dataFragments dataSize).2
  simp only [inv.rsK, inv.rsM] at spec
  have nonZero := countBits_encode_nonZeroInput dataFragments (k := k) (by omega)
  have needed := countBits_encode_needed fits
  -- the tables read are those of the data parts given, in the parity rows
  have used : t < usedTables k ((List.range m).foldl (encodeParity k) (0, 0)).1
      ((List.range k).foldl (encodeInputs dataFragments) (0, [])).1 := by
    have fewer : ((List.range k).filterMap dataFragments).length ≤ k := by
      simpa using List.length_filterMap_le dataFragments (List.range k)
    have bound := Nat.mul_le_mul_left m fewer
    rw [usedTables, nonZero, needed]
    split <;> rw [Nat.mul_comm] <;> omega
  rw [spec t used, missTables, inv.rsK, if_pos (encode_key k m), encodingTables, inv.rsK, inv.rsM,
    reducedTables_read _ _ _ _ _ (by omega) (fun j set => by rw [foldl_encodeInputs_fst] at set; simp at set; omega)
      (by rw [nonZero, needed]; exact ht),
    nonZero, needed, encode_nonZeroInput dataFragments (by omega)]

/-- What `encode` writes: the multiply-accumulate over the data parts given, with
the tables of the object it returns. -/
theorem encode_snd (s : ReedSolomon) (dataSize : Nat) :
    (encode s dataFragments dataSize).2 =
      ecEncodeData dataSize ((List.range s.rsK).filterMap dataFragments).length s.rsM
        (encode s dataFragments dataSize).1.gfTable ((List.range s.rsK).filterMap dataFragments) := by
  rw [← foldl_encodeInputs_snd, encode_fst]
  simp only [encode, createEncodingMatrix, withCache_rsM]

/-- Row `l` of the rows `encode` needs is parity row `l` of the generator. -/
theorem encode_row (fits : k + m ≤ 64) (rsMatrix : Nat → GF) {l j : Nat} (hl : l < m) (hj : j < k) :
    selectRows (fun _ => 0) rsMatrix (k + m) k ((List.range m).foldl (encodeParity k) (0, 0)).1 (l * k + j) =
      rsMatrix ((k + l) * k + j) := by
  have row : l < ((List.range (k + m)).filter ((List.range m).foldl (encodeParity k) (0, 0)).1.getLsbD).length := by
    rw [encode_needed fits]
    simpa using hl
  rw [selectRows_apply _ _ _ _ _ row hj]
  simp only [encode_needed fits, List.getElem_map, List.getElem_range]

/-- Each parity part `encode` writes is its row of the parity matrix times the
data parts, byte by byte, a NULL data part counting as zeros: over every
sequence of calls on the object, whatever its cache holds. -/
theorem encode_parity (positive : 0 < k) (fits : k + m ≤ 64) {s : ReedSolomon} (reach : Reachable k m s)
    (dataSize : Nat) {l i : Nat} (hl : l < m) (hi : i < dataSize) :
    ((encode s dataFragments dataSize).2.getD l []).getD i 0 =
      (∑ j : Fin k, parityRows k m ⟨l, hl⟩ j * fragmentByte dataFragments j i).val := by
  have inv := reach.invariant positive
  -- the tables read are those of the parity rows, whatever the cache held
  rw [encode_snd, inv.rsK, inv.rsM,
    ecEncodeData_congr _ fun t used => encode_tables fits inv dataFragments dataSize used,
    ecEncodeData_given _ _ _ hl hi, ← Fin.sum_univ_eq_sum_range]
  refine congrArg GF.val (Finset.sum_congr rfl fun j _ => ?_)
  rw [encode_row fits _ hl j.isLt, inv.rsMatrix_parity hl j.isLt]

/-- A second call on an object whose cache holds the tables of the first: one
data part of two given, one parity part. -/
theorem encode_parity_after_encode :
    ((encode (encode (ReedSolomon.create 2 1 (fun _ _ => 0) fun _ => 0) (fun _ => some [7, 7]) 2).1
        (fun j => if j = 0 then some [1, 2] else none) 2).2.getD 0 []).getD 1 0 =
      (∑ j : Fin 2, parityRows 2 1 ⟨0, by decide⟩ j *
        fragmentByte (fun j => if j = 0 then some [1, 2] else none) j 1).val :=
  encode_parity _ (by decide) (by decide) (.encode _ _ (.create _ _)) 2 (by decide) (by decide)

end Encode

/-! ## `recover` -/

section Recover

variable (inputs : Nat → Option (List UInt8)) (erased : ErasedMap) (outputs : Nat → Bool) {k m : Nat}

theorem mem_availableParts {n i : Nat} : i ∈ availableParts erased n ↔ i < n ∧ erased.getLsbD i = false := by
  simp [availableParts]

theorem availableParts_getD_lt {n : Nat} (positive : 0 < n) (a : Nat) : (availableParts erased n).getD a 0 < n := by
  by_cases ha : a < (availableParts erased n).length
  · rw [List.getD_eq_getElem _ _ ha]
    exact ((mem_availableParts erased).mp (List.getElem_mem ha)).1
  · rw [List.getD_eq_default _ _ (by omega)]
    exact positive

/-- With `m` parts erased, all of them below `k + m`, `k` parts are available. -/
theorem availableParts_length (fits : k + m ≤ 64) (below : ∀ i, erased.getLsbD i → i < k + m)
    (count : countBits erased = m) : (availableParts erased (k + m)).length = k := by
  have lost : ((List.range (k + m)).filter erased.getLsbD).length = m := by
    rw [← countBits_eq erased fits below, count]
  have total := List.length_eq_length_filter_add erased.getLsbD (l := List.range (k + m))
  rw [List.length_range] at total
  unfold availableParts
  omega

/-- The `a`-th available part, as a row of the generator. -/
def availableRow (erased : ErasedMap) (k m : Nat) (a : Fin k) : Fin (k + m) :=
  ⟨(availableParts erased (k + m)).getD a 0, availableParts_getD_lt erased (by have := a.isLt; omega) a⟩

theorem availableRow_injective (length : (availableParts erased (k + m)).length = k) :
    Function.Injective (availableRow erased k m) := by
  intro a b same
  have nodup : (availableParts erased (k + m)).Nodup := List.nodup_range.filter _
  have ha : a.val < (availableParts erased (k + m)).length := by omega
  have hb : b.val < (availableParts erased (k + m)).length := by omega
  have values : (availableParts erased (k + m))[a.val] = (availableParts erased (k + m))[b.val] := by
    have := congrArg Fin.val same
    simpa [availableRow, List.getD_eq_getElem?_getD, length] using this
  exact Fin.ext ((nodup.getElem_inj_iff).mp values)

/-- The rows `createRecoveryMatrix` inverts are the available parts. -/
theorem filter_not_erased (fits : k + m ≤ 64) :
    (List.range (k + m)).filter (~~~erased).getLsbD = availableParts erased (k + m) := by
  refine List.filter_congr fun i member => ?_
  have small : i < 64 := by have := List.mem_range.mp member; omega
  simp [small]

/-- The rows `recover` needs are the parts it writes, in order. -/
theorem filter_scanParts_needed (n : Nat) :
    (List.range n).filter (scanParts k inputs erased outputs n).needed.getLsbD =
      (scanParts k inputs erased outputs n).outParts := by
  rw [scanParts_outParts]
  refine List.filter_congr fun i member => ?_
  simp [scanParts_needed, List.mem_range.mp member]

theorem countBits_scanParts_needed (fits : k + m ≤ 64) :
    countBits (scanParts k inputs erased outputs (k + m)).needed =
      (scanParts k inputs erased outputs (k + m)).outParts.length := by
  rw [countBits_eq _ fits fun j set => by rw [scanParts_needed] at set; simp at set; omega,
    filter_scanParts_needed]

/-- What `recover` writes for part `r`: the output at its position among the
parts written, from the tables of the object it returns. -/
theorem recover_snd (s : ReedSolomon) (dataSize r : Nat) :
    (recover s inputs erased outputs dataSize).2 r =
      ((scanParts s.rsK inputs erased outputs (s.rsK + s.rsM)).outParts.zip
        (ecEncodeData dataSize (scanParts s.rsK inputs erased outputs (s.rsK + s.rsM)).inParts.length
          (scanParts s.rsK inputs erased outputs (s.rsK + s.rsM)).outParts.length
          (recover s inputs erased outputs dataSize).1.gfTable
          (scanParts s.rsK inputs erased outputs (s.rsK + s.rsM)).inParts)).lookup r := rfl

theorem usedTables_eq {k : Nat} {needed nonZeroInput : ErasedMap} (fewer : countBits nonZeroInput ≤ k) :
    usedTables k needed nonZeroInput = countBits nonZeroInput * countBits needed := by
  unfold usedTables
  split
  · rfl
  · rw [show k = countBits nonZeroInput by omega]

section Available

variable {inputs erased outputs}
variable (length : (availableParts erased (k + m)).length = k)
include length

/-- The non-zero inputs are the available parts given, by position. -/
theorem filter_scanParts_nonZeroInput (fits : k + m ≤ 64) :
    (List.range k).filter (scanParts k inputs erased outputs (k + m)).nonZeroInput.getLsbD =
      (List.range k).filter fun a => (inputs ((availableParts erased (k + m)).getD a 0)).isSome := by
  refine List.filter_congr fun a member => ?_
  have below := List.mem_range.mp member
  rw [scanParts_nonZeroInput]
  simp [length, below, show a < 64 by omega]

/-- The inputs are the available parts given, by position. -/
theorem scanParts_inParts_positions :
    (scanParts k inputs erased outputs (k + m)).inParts =
      (List.range k).filterMap fun a => inputs ((availableParts erased (k + m)).getD a 0) := by
  rw [scanParts_inParts, FlatArray.filterMap_eq_filterMap_range _ _ 0, length]

theorem countBits_scanParts_nonZeroInput (fits : k + m ≤ 64) :
    countBits (scanParts k inputs erased outputs (k + m)).nonZeroInput =
      (scanParts k inputs erased outputs (k + m)).inParts.length := by
  rw [countBits_eq _ (show k ≤ 64 by omega) fun j set => by rw [scanParts_nonZeroInput, length] at set; simp at set; omega,
    filter_scanParts_nonZeroInput length fits, scanParts_inParts_positions length, List.length_filterMap_eq_countP,
    List.countP_eq_length_filter]

/-- The bytes `recover` writes at position `q`, when the tables it reads are
those of `matrix`: row `q` of `matrix` times the available parts. -/
theorem recover_byte (fits : k + m ≤ 64) {s : ReedSolomon} (dataSize : Nat) (matrix : Nat → GF)
    (gTbls : Nat → Nat → UInt8)
    (tables : ∀ t < usedTables k (scanParts k inputs erased outputs (k + m)).needed
        (scanParts k inputs erased outputs (k + m)).nonZeroInput,
      (recover s inputs erased outputs dataSize).1.gfTable t =
        reducedTables k (scanParts k inputs erased outputs (k + m)).needed
          (scanParts k inputs erased outputs (k + m)).nonZeroInput matrix gTbls t)
    {q i : Nat} (hq : q < (scanParts k inputs erased outputs (k + m)).outParts.length) (hi : i < dataSize) :
    ((ecEncodeData dataSize (scanParts k inputs erased outputs (k + m)).inParts.length
        (scanParts k inputs erased outputs (k + m)).outParts.length (recover s inputs erased outputs dataSize).1.gfTable
        (scanParts k inputs erased outputs (k + m)).inParts).getD q []).getD i 0 =
      (∑ a ∈ Finset.range k, matrix (q * k + a) * fragmentByte inputs ((availableParts erased (k + m)).getD a 0) i).val := by
  have nonZero : countBits (scanParts k inputs erased outputs (k + m)).nonZeroInput =
      (scanParts k inputs erased outputs (k + m)).inParts.length :=
    countBits_scanParts_nonZeroInput length fits
  have needed := countBits_scanParts_needed inputs erased outputs fits
  have below : ∀ j, (scanParts k inputs erased outputs (k + m)).nonZeroInput.getLsbD j → j < k := by
    intro j set
    rw [scanParts_nonZeroInput, length] at set
    simp at set
    omega
  have fewer : countBits (scanParts k inputs erased outputs (k + m)).nonZeroInput ≤ k := by
    rw [countBits_eq _ (show k ≤ 64 by omega) below]
    simpa using List.length_filter_le _ (List.range k)
  -- the tables read are those of `matrix`, cut down to the columns of the parts given
  have read : ∀ t < (scanParts k inputs erased outputs (k + m)).outParts.length *
      (scanParts k inputs erased outputs (k + m)).inParts.length,
      (recover s inputs erased outputs dataSize).1.gfTable t =
        ecInitTables (scanParts k inputs erased outputs (k + m)).inParts.length
          (scanParts k inputs erased outputs (k + m)).outParts.length
          (columnsOf matrix k ((List.range k).filter (scanParts k inputs erased outputs (k + m)).nonZeroInput.getLsbD))
          gTbls t := by
    intro t used
    rw [← nonZero, ← needed] at used ⊢
    rw [tables t (by rw [usedTables_eq fewer, Nat.mul_comm]; exact used)]
    exact reducedTables_read k _ _ matrix gTbls (by omega) below used
  rw [ecEncodeData_congr _ read, filter_scanParts_nonZeroInput length fits, scanParts_inParts_positions length]
  exact ecEncodeData_given matrix gTbls (fun a => inputs ((availableParts erased (k + m)).getD a 0)) hq hi

end Available

/-- The available rows of the generator, as a square matrix. -/
def availableRows (k m : Nat) (erased : ErasedMap) : Matrix (Fin k) (Fin k) GF :=
  Matrix.of fun a j => generator (parityRows k m) (availableRow erased k m a) j

/-- Any `k` available parts determine the data. -/
theorem availableRows_det_ne_zero (hk : k ≤ 32) (hm : m ≤ 32) (length : (availableParts erased (k + m)).length = k) :
    (availableRows k m erased).det ≠ 0 :=
  generator_rows_det_ne_zero (parityRows_squareNonsingular hk hm) (availableRow_injective erased length)

/-- Row `q` of the rows `recover` needs is the `q`-th part it writes. -/
theorem selectRows_needed (out matrix : Nat → GF) {q j : Nat}
    (hq : q < (scanParts k inputs erased outputs (k + m)).outParts.length) (hj : j < k) :
    selectRows out matrix (k + m) k (scanParts k inputs erased outputs (k + m)).needed (q * k + j) =
      matrix ((scanParts k inputs erased outputs (k + m)).outParts.getD q 0 * k + j) := by
  have row : q < ((List.range (k + m)).filter (scanParts k inputs erased outputs (k + m)).needed.getLsbD).length := by
    rw [filter_scanParts_needed]
    exact hq
  rw [selectRows_apply _ _ _ _ _ row hj, ← List.getD_eq_getElem _ 0 row, filter_scanParts_needed]

/-- With only data parts needed, the rows needed among the data rows are the parts written. -/
theorem filter_needed_of_onlyDataNeeded
    (only : onlyDataNeeded k m (scanParts k inputs erased outputs (k + m)).needed = true) :
    (List.range k).filter (scanParts k inputs erased outputs (k + m)).needed.getLsbD =
      (scanParts k inputs erased outputs (k + m)).outParts := by
  rw [← filter_scanParts_needed, List.range_add, List.filter_append]
  have parity : ((List.range m).map (k + ·)).filter (scanParts k inputs erased outputs (k + m)).needed.getLsbD = [] := by
    refine List.filter_eq_nil_iff.mpr fun i member => ?_
    obtain ⟨l, hl, rfl⟩ := List.mem_map.mp member
    have := (List.all_eq_true.mp only) (k + l) (List.mem_range.mpr (by simpa using List.mem_range.mp hl))
    simpa using this
  rw [parity, List.append_nil]

section Rows

variable {inputs erased outputs} {s : ReedSolomon} (inv : Invariant k m s)
include inv

theorem availableRows_apply (a j : Fin k) :
    availableRows k m erased a j = s.rsMatrix ((availableParts erased (k + m)).getD a 0 * k + j) :=
  (inv.rsMatrix_apply (availableRow erased k m a).isLt j.isLt).symm

/-- The matrix `createRecoveryMatrix` inverts. -/
theorem toMatrix_selectRows_available (fits : k + m ≤ 64) (length : (availableParts erased (k + m)).length = k) :
    toMatrix (selectRows (fun _ => 0) s.rsMatrix (k + m) k (~~~erased)) k k = availableRows k m erased := by
  ext a j
  have ha : a.val < ((List.range (k + m)).filter (~~~erased).getLsbD).length := by
    rw [filter_not_erased erased fits, length]
    exact a.isLt
  rw [toMatrix_apply, selectRows_apply _ _ _ _ _ ha j.isLt, availableRows_apply inv,
    ← List.getD_eq_getElem _ 0 ha, filter_not_erased erased fits]

/-- With no data part erased, the available parts are the data parts. -/
theorem availableRows_of_noDataErased (length : (availableParts erased (k + m)).length = k)
    (noData : noDataErased k erased = true) : availableRows k m erased = 1 := by
  have data : availableParts erased k = List.range k := by
    refine List.filter_eq_self.mpr fun i member => ?_
    simpa using (List.all_eq_true.mp noData) i member
  have parts : availableParts erased (k + m) = List.range k := by
    have split : availableParts erased (k + m) = availableParts erased k ++
        ((List.range m).map (k + ·)).filter fun i => !erased.getLsbD i := by
      rw [availableParts, availableParts, List.range_add, List.filter_append]
    rw [split, data] at length ⊢
    have rest : (((List.range m).map (k + ·)).filter fun i => !erased.getLsbD i).length = 0 := by
      simp only [List.length_append, List.length_range] at length
      omega
    rw [List.length_eq_zero_iff.mp rest, List.append_nil]
  ext a j
  have entry := inv.rsMatrix_apply (show a.val < k + m by omega) j.isLt
  simp only [availableRows_apply inv, parts, List.getD_eq_getElem?_getD, List.getElem?_range a.isLt,
    Option.getD_some, entry, Matrix.one_apply, Fin.ext_iff]
  exact generator_of_lt (parityRows k m) (r := ⟨a.val, by omega⟩) a.isLt j

/-- On the encoding path the needed rows of the generator are read as they are. -/
theorem encodingMatrix_recovers (length : (availableParts erased (k + m)).length = k)
    (noData : noDataErased k erased = true) {q : Nat}
    (hq : q < (scanParts k inputs erased outputs (k + m)).outParts.length) (j : Fin k) :
    Matrix.vecMul (fun a : Fin k => selectRows (fun _ => 0) s.rsMatrix (k + m) k
        (scanParts k inputs erased outputs (k + m)).needed (q * k + a)) (availableRows k m erased) j =
      s.rsMatrix ((scanParts k inputs erased outputs (k + m)).outParts.getD q 0 * k + j) := by
  rw [availableRows_of_noDataErased inv length noData, Matrix.vecMul_one]
  exact selectRows_needed inputs erased outputs _ _ hq j.isLt

/-- On the recovery path the needed rows of the generator times the inverse of
the available rows recover the parts written. -/
theorem recoveryMatrix_recovers (hk : k ≤ 32) (hm : m ≤ 32) (length : (availableParts erased (k + m)).length = k)
    (gfTable : Nat → Nat → UInt8) {q : Nat}
    (hq : q < (scanParts k inputs erased outputs (k + m)).outParts.length) (j : Fin k) :
    Matrix.vecMul (fun a : Fin k => (matrixMultiply gfTable (fun _ => 0)
        (countBits (scanParts k inputs erased outputs (k + m)).needed) k k
        (selectRows (selectRows (fun _ => 0) s.rsMatrix (k + m) k (~~~erased)) s.rsMatrix (k + m) k
          (scanParts k inputs erased outputs (k + m)).needed)
        (gfInvertMatrix (selectRows (fun _ => 0) s.rsMatrix (k + m) k (~~~erased)) (fun _ => 0) k).2).2 (q * k + a))
      (availableRows k m erased) j =
      s.rsMatrix ((scanParts k inputs erased outputs (k + m)).outParts.getD q 0 * k + j) := by
  have fits : k + m ≤ 64 := by omega
  have available := toMatrix_selectRows_available inv fits length
  have nonsingular := availableRows_det_ne_zero erased hk hm length
  have row : q < countBits (scanParts k inputs erased outputs (k + m)).needed := by
    rw [countBits_scanParts_needed inputs erased outputs fits]
    exact hq
  -- the row is the needed row of the generator times the inverse
  have product : (fun a : Fin k => (matrixMultiply gfTable (fun _ => 0)
      (countBits (scanParts k inputs erased outputs (k + m)).needed) k k
      (selectRows (selectRows (fun _ => 0) s.rsMatrix (k + m) k (~~~erased)) s.rsMatrix (k + m) k
        (scanParts k inputs erased outputs (k + m)).needed)
      (gfInvertMatrix (selectRows (fun _ => 0) s.rsMatrix (k + m) k (~~~erased)) (fun _ => 0) k).2).2 (q * k + a)) =
      Matrix.vecMul (fun c : Fin k => s.rsMatrix ((scanParts k inputs erased outputs (k + m)).outParts.getD q 0 * k + c))
        (availableRows k m erased)⁻¹ := by
    funext a
    rw [gfInvertMatrix_eq (available ▸ nonsingular), available, matrixMultiply_apply _ _ _ _ row a.isLt,
      ← Fin.sum_univ_eq_sum_range]
    refine Finset.sum_congr rfl fun c _ => ?_
    rw [selectRows_needed inputs erased outputs _ _ hq c.isLt]
    exact congrArg (_ * ·) (ofMatrix_apply (availableRows k m erased)⁻¹ (fun _ => 0) c a)
  rw [product, Matrix.vecMul_vecMul, Matrix.nonsing_inv_mul _ (isUnit_iff_ne_zero.mpr nonsingular), Matrix.vecMul_one]

/-- Recovering data parts only, the needed rows of the inverse recover them. -/
theorem dataMatrix_recovers (hk : k ≤ 32) (hm : m ≤ 32) (length : (availableParts erased (k + m)).length = k)
    (only : onlyDataNeeded k m (scanParts k inputs erased outputs (k + m)).needed = true) {q : Nat}
    (hq : q < (scanParts k inputs erased outputs (k + m)).outParts.length) (j : Fin k) :
    Matrix.vecMul (fun a : Fin k => selectRows (fun _ => 0)
        (gfInvertMatrix (selectRows (fun _ => 0) s.rsMatrix (k + m) k (~~~erased)) (fun _ => 0) k).2 k k
        (scanParts k inputs erased outputs (k + m)).needed (q * k + a)) (availableRows k m erased) j =
      s.rsMatrix ((scanParts k inputs erased outputs (k + m)).outParts.getD q 0 * k + j) := by
  have fits : k + m ≤ 64 := by omega
  have available := toMatrix_selectRows_available inv fits length
  have nonsingular := availableRows_det_ne_zero erased hk hm length
  have needed := filter_needed_of_onlyDataNeeded inputs erased outputs only
  have row : q < ((List.range k).filter (scanParts k inputs erased outputs (k + m)).needed.getLsbD).length := by
    rw [needed]
    exact hq
  -- the part written is a data part
  have data : (scanParts k inputs erased outputs (k + m)).outParts.getD q 0 < k := by
    have member : (scanParts k inputs erased outputs (k + m)).outParts.getD q 0 ∈
        (List.range k).filter (scanParts k inputs erased outputs (k + m)).needed.getLsbD := by
      rw [needed, List.getD_eq_getElem _ _ hq]
      exact List.getElem_mem hq
    exact List.mem_range.mp (List.mem_filter.mp member).1
  -- its row is the row of the inverse
  have entries : (fun a : Fin k => selectRows (fun _ => 0)
      (gfInvertMatrix (selectRows (fun _ => 0) s.rsMatrix (k + m) k (~~~erased)) (fun _ => 0) k).2 k k
      (scanParts k inputs erased outputs (k + m)).needed (q * k + a)) =
      fun a => (availableRows k m erased)⁻¹ ⟨_, data⟩ a := by
    funext a
    rw [selectRows_apply _ _ _ _ _ row a.isLt, ← List.getD_eq_getElem _ 0 row, needed,
      gfInvertMatrix_eq (available ▸ nonsingular), available]
    exact ofMatrix_apply _ (fun _ => 0) ⟨_, data⟩ a
  have unit := inv.rsMatrix_apply (show (scanParts k inputs erased outputs (k + m)).outParts.getD q 0 < k + m by omega)
    j.isLt
  calc Matrix.vecMul (fun a : Fin k => selectRows (fun _ => 0)
          (gfInvertMatrix (selectRows (fun _ => 0) s.rsMatrix (k + m) k (~~~erased)) (fun _ => 0) k).2 k k
          (scanParts k inputs erased outputs (k + m)).needed (q * k + a)) (availableRows k m erased) j
      = ((availableRows k m erased)⁻¹ * availableRows k m erased) ⟨_, data⟩ j := by
        rw [entries]
        rfl
    _ = (1 : Matrix (Fin k) (Fin k) GF) ⟨_, data⟩ j := by
        rw [Matrix.nonsing_inv_mul _ (isUnit_iff_ne_zero.mpr nonsingular)]
    _ = s.rsMatrix ((scanParts k inputs erased outputs (k + m)).outParts.getD q 0 * k + j) := by
        have dataRow := generator_of_lt (parityRows k m)
          (r := ⟨(scanParts k inputs erased outputs (k + m)).outParts.getD q 0, by omega⟩) data j
        simp only [unit, dataRow, Matrix.one_apply, Fin.ext_iff]


end Rows

section Tables

variable {s : ReedSolomon} (inv : Invariant k m s)
include inv

/-- Whichever path `recover` takes, the tables it reads are those of a matrix
whose row `q` recovers the `q`-th part written from the available ones. -/
theorem recover_tables (hk : k ≤ 32) (hm : m ≤ 32) (length : (availableParts erased (k + m)).length = k)
    (dataSize : Nat) :
    ∃ matrix gTbls,
      (∀ t < usedTables k (scanParts k inputs erased outputs (k + m)).needed
          (scanParts k inputs erased outputs (k + m)).nonZeroInput,
        (recover s inputs erased outputs dataSize).1.gfTable t =
          reducedTables k (scanParts k inputs erased outputs (k + m)).needed
            (scanParts k inputs erased outputs (k + m)).nonZeroInput matrix gTbls t) ∧
      ∀ q < (scanParts k inputs erased outputs (k + m)).outParts.length, ∀ j : Fin k,
        Matrix.vecMul (fun a : Fin k => matrix (q * k + a)) (availableRows k m erased) j =
          s.rsMatrix ((scanParts k inputs erased outputs (k + m)).outParts.getD q 0 * k + j) := by
  have spec := (recover_spec inv.cache inputs erased outputs dataSize).2
  unfold missTables at spec
  simp only [inv.rsK, inv.rsM] at spec
  by_cases noData : noDataErased k erased = true
  · -- no data part is erased: the encoding tables
    refine ⟨selectRows (fun _ => 0) s.rsMatrix (k + m) k (scanParts k inputs erased outputs (k + m)).needed,
      s.gfTable, fun t used => ?_, fun q hq => encodingMatrix_recovers inv length noData hq⟩
    rw [spec t used, if_pos noData]
    simp only [encodingTables, inv.rsK, inv.rsM]
  · cases only : onlyDataNeeded k m (scanParts k inputs erased outputs (k + m)).needed
    · -- a parity part is needed: the needed rows times the inverse
      refine ⟨(matrixMultiply s.gfTable (fun _ => 0) (countBits (scanParts k inputs erased outputs (k + m)).needed) k k
          (selectRows (selectRows (fun _ => 0) s.rsMatrix (k + m) k (~~~erased)) s.rsMatrix (k + m) k
            (scanParts k inputs erased outputs (k + m)).needed)
          (gfInvertMatrix (selectRows (fun _ => 0) s.rsMatrix (k + m) k (~~~erased)) (fun _ => 0) k).2).2,
        (matrixMultiply s.gfTable (fun _ => 0) (countBits (scanParts k inputs erased outputs (k + m)).needed) k k
          (selectRows (selectRows (fun _ => 0) s.rsMatrix (k + m) k (~~~erased)) s.rsMatrix (k + m) k
            (scanParts k inputs erased outputs (k + m)).needed)
          (gfInvertMatrix (selectRows (fun _ => 0) s.rsMatrix (k + m) k (~~~erased)) (fun _ => 0) k).2).1,
        fun t used => ?_, fun q hq => recoveryMatrix_recovers inv hk hm length s.gfTable hq⟩
      rw [spec t used, if_neg noData, only]
      simp only [recoveryTables, inv.rsK, inv.rsM]
      rfl
    · -- only data parts are needed: the needed rows of the inverse
      refine ⟨selectRows (fun _ => 0)
          (gfInvertMatrix (selectRows (fun _ => 0) s.rsMatrix (k + m) k (~~~erased)) (fun _ => 0) k).2 k k
          (scanParts k inputs erased outputs (k + m)).needed,
        s.gfTable, fun t used => ?_, fun q hq => dataMatrix_recovers inv hk hm length only hq⟩
      rw [spec t used, if_neg noData, only]
      simp only [recoveryTables, inv.rsK, inv.rsM]
      rfl

end Tables

/-- A row that gives `target` from the available rows of the generator, applied
to the available parts of a code word, gives the code word's part of row `target`. -/
theorem recovered_sum (matrix : Nat → GF) (data : Fin k → Nat → GF) (target : Fin k → GF) {q i : Nat}
    (recovers : ∀ j, Matrix.vecMul (fun a : Fin k => matrix (q * k + a)) (availableRows k m erased) j = target j)
    (codeword : ∀ a : Fin k, fragmentByte inputs (availableRow erased k m a) i =
      ∑ j, availableRows k m erased a j * data j i) :
    ∑ a ∈ Finset.range k, matrix (q * k + a) * fragmentByte inputs ((availableParts erased (k + m)).getD a 0) i =
      ∑ j, target j * data j i := by
  rw [← Fin.sum_univ_eq_sum_range
    (fun a => matrix (q * k + a) * fragmentByte inputs ((availableParts erased (k + m)).getD a 0) i)]
  calc ∑ a : Fin k, matrix (q * k + a) * fragmentByte inputs ((availableParts erased (k + m)).getD a 0) i
      = ∑ a : Fin k, ∑ j, matrix (q * k + a) * availableRows k m erased a j * data j i := by
        refine Finset.sum_congr rfl fun a _ => ?_
        rw [show (availableParts erased (k + m)).getD a 0 = availableRow erased k m a from rfl, codeword a,
          Finset.mul_sum]
        simp only [mul_assoc]
    _ = ∑ j, (∑ a : Fin k, matrix (q * k + a) * availableRows k m erased a j) * data j i := by
        rw [Finset.sum_comm]
        simp only [Finset.sum_mul]
    _ = ∑ j, target j * data j i := Finset.sum_congr rfl fun j _ => by rw [← recovers j]; rfl

/-- Each erased part `recover` is asked for is written, and is the part of the
code word that the available parts belong to: over every sequence of calls on the
object, whatever its cache holds, whichever path (encoding, recovery, data only)
the call takes. A NULL available part counts as zeros. -/
theorem recover_erased (positive : 0 < k) (hk : k ≤ 32) (hm : m ≤ 32) {s : ReedSolomon} (reach : Reachable k m s)
    (dataSize : Nat) (below : ∀ i, erased.getLsbD i → i < k + m) (count : countBits erased = m)
    (data : Fin k → Nat → GF)
    (codeword : ∀ r : Fin (k + m), erased.getLsbD r = false → ∀ i < dataSize,
      fragmentByte inputs r i = ∑ j, generator (parityRows k m) r j * data j i)
    (r : Fin (k + m)) (lost : erased.getLsbD r = true) (wanted : outputs r = true) :
    ∃ out, (recover s inputs erased outputs dataSize).2 r = some out ∧
      ∀ i < dataSize, out.getD i 0 = (∑ j, generator (parityRows k m) r j * data j i).val := by
  have inv := reach.invariant positive
  have fits : k + m ≤ 64 := by omega
  have length := availableParts_length erased fits below count
  obtain ⟨matrix, gTbls, tables, recovers⟩ := recover_tables inputs erased outputs inv hk hm length dataSize
  -- the part is written, at its position `q` among the parts written
  have nodup : (scanParts k inputs erased outputs (k + m)).outParts.Nodup := by
    rw [scanParts_outParts]
    exact List.nodup_range.filter _
  have written : r.val ∈ (scanParts k inputs erased outputs (k + m)).outParts := by
    rw [scanParts_outParts]
    simp [lost, wanted]
  obtain ⟨q, hq, position⟩ := List.getElem_of_mem written
  rw [recover_snd, inv.rsK, inv.rsM, ← position, FlatArray.lookup_zip_getElem nodup _ hq (by rw [ecEncodeData_length]; exact hq)]
  refine ⟨_, rfl, fun i hi => ?_⟩
  rw [← List.getD_eq_getElem _ [], recover_byte length fits dataSize matrix gTbls tables hq hi]
  refine congrArg GF.val (recovered_sum inputs erased matrix data _ (fun j => ?_) fun a => ?_)
  · -- row `q` gives the row of the part
    rw [recovers q hq j, List.getD_eq_getElem _ _ hq, position]
    exact inv.rsMatrix_apply r.isLt j.isLt
  · -- the available parts hold the code word
    have available : (availableRow erased k m a).val ∈ availableParts erased (k + m) := by
      show (availableParts erased (k + m)).getD a 0 ∈ availableParts erased (k + m)
      rw [List.getD_eq_getElem _ _ (by omega)]
      exact List.getElem_mem _
    exact codeword _ ((mem_availableParts erased).mp available).2 i hi

/-- Data part 0 of two erased, recovered from data part 1 and the parity part. -/
theorem recover_erased_data_part :
    ∃ out, (recover (ReedSolomon.create 2 1 (fun _ _ => 0) fun _ => 0)
        (fun i => if i = 1 then some [5] else if i = 2 then some [6] else none) (BitVec.twoPow 64 0)
        (fun i => decide (i = 0)) 1).2 0 = some out ∧
      ∀ i < 1, out.getD i 0 = (∑ j, generator (parityRows 2 1) 0 j *
        (fun (j : Fin 2) (_ : Nat) => if j.val = 0 then (⟨3⟩ : GF) else ⟨5⟩) j i).val :=
  recover_erased _ _ _ (by decide) (by decide) (by decide) (.create _ _) 1
    (fun i set => by simp at set; omega) (by decide) _
    (fun r fresh i hi => by
      obtain rfl : i = 0 := by omega
      rw [Fin.sum_univ_two]
      match r with
      | 0 => simp at fresh
      | 1 => simp [fragmentByte, generator]
      | 2 =>
        simp [fragmentByte, generator, parityRows, rsParity]
        decide)
    0 (by decide) (by decide)

end Recover

end SaunaFS
