import SaunaFS.Common.GaloisFieldEncode
import SaunaFS.Common.GaloisMatrix

/-! The Reed–Solomon coder `ReedSolomon<32, 32>` (`src/common/reed_solomon.h`).

The object holds the generator of its code (`rs_matrix_`, made once by the
constructor) and a cache: the multiplication tables `gf_table_` last built, with
the key they were built for (needed parts, erased parts, non-zero inputs).
`encode` and `recover` build the tables for their key unless it is the cached
one, then multiply the non-zero inputs through them. A fragment pointer is an
`Option`: `none` is NULL, a part of zeros for an input and no output for an
output. The asserts are those of a release build: not checked.

Matrices are flat arrays (`Nat → GF`), tables are `gf_table_` cut into its
32-byte tables, and bit sets are 64-bit words.
-/

set_option autoImplicit false

namespace SaunaFS

open FlatArray

/-- `std::bitset<kMaxPartCount>`: the parts below 64. -/
abbrev ErasedMap := BitVec 64

/-- `bitset::set(i)`. -/
def setBit (bits : ErasedMap) (i : Nat) : ErasedMap := bits ||| BitVec.twoPow 64 i

/-- `bitset::count()`. -/
def countBits (bits : ErasedMap) : Nat := ((List.range 64).filter bits.getLsbD).length

/-- The members of `ReedSolomon<32, 32>`. -/
structure ReedSolomon where
  gfTable : Nat → Nat → UInt8
  rsMatrix : Nat → GF
  erasedParts : ErasedMap
  neededParts : ErasedMap
  nonZeroInput : ErasedMap
  rsK : Nat
  rsM : Nat

/-- `selectRows(output_matrix, input_matrix, s1, s2, required_rows)`. -/
def selectRows (outputMatrix inputMatrix : Nat → GF) (s1 s2 : Nat) (requiredRows : ErasedMap) : Nat → GF :=
  (packBlocks requiredRows.getLsbD s2 (fun i j => inputMatrix (i * s2 + j)) (List.range s1) (outputMatrix, 0)).1

/-- `selectColumns(output_matrix, input_matrix, s1, s2, required_columns)`. -/
def selectColumns (outputMatrix inputMatrix : Nat → GF) (s1 s2 : Nat) (requiredColumns : ErasedMap) :
    Nat → GF :=
  ((List.range s1).foldl
    (fun acc i => packBlocks requiredColumns.getLsbD 1 (fun j _ => inputMatrix (i * s2 + j)) (List.range s2) acc)
    (outputMatrix, 0)).1

/-- `matrixMultiply(output_matrix, s1, s2, s3, a_matrix, b_matrix)`, which builds
the tables of `a_matrix` in `gf_table_`. -/
def matrixMultiply (gfTable : Nat → Nat → UInt8) (outputMatrix : Nat → GF) (s1 s2 s3 : Nat)
    (aMatrix bMatrix : Nat → GF) : (Nat → Nat → UInt8) × (Nat → GF) :=
  let gfTable := ecInitTables s3 s1 aMatrix gfTable
  -- `input_rows[i]` is row `i` of `b_matrix`, `output_rows[i]` row `i` of the output
  let inputRows := (List.range s3).map fun i => (List.range s2).map fun j => (bMatrix (i * s2 + j)).val
  let outputRows := ecEncodeData s2 s3 s1 gfTable inputRows
  (gfTable, fun t => if t < s1 * s2 then ⟨(outputRows.getD (t / s2) []).getD (t % s2) 0⟩ else outputMatrix t)

/-- `createRSMatrix(k, m)`. -/
def createRSMatrix (s : ReedSolomon) (k m : Nat) : ReedSolomon :=
  if k = s.rsK ∧ m = s.rsM then s
  else
    { s with
      rsMatrix := if m ≥ 5 ∨ (m = 4 ∧ k > 20) then gfGenCauchy1Matrix s.rsMatrix (k + m) k
        else gfGenRsMatrix s.rsMatrix (k + m) k
      rsK := k
      rsM := m
      neededParts := 0
      erasedParts := 0 }

/-- The constructor `ReedSolomon(k, m)`. The arrays start with indeterminate
contents, given here; the bit sets start empty. -/
def ReedSolomon.create (k m : Nat) (gfTable : Nat → Nat → UInt8) (rsMatrix : Nat → GF) : ReedSolomon :=
  createRSMatrix ⟨gfTable, rsMatrix, 0, 0, 0, 0, 0⟩ k m

/-- The end of `createEncodingMatrix` and of `createRecoveryMatrix`: the tables of
the rows of `matrix`, without the columns of the zero inputs when there are some. -/
def reducedTables (k : Nat) (needed nonZeroInput : ErasedMap) (matrix : Nat → GF)
    (gfTable : Nat → Nat → UInt8) : Nat → Nat → UInt8 :=
  if countBits nonZeroInput < k then
    let reducedMatrix := selectColumns (fun _ => 0) matrix (countBits needed) k nonZeroInput
    ecInitTables (countBits needed) (countBits nonZeroInput) reducedMatrix gfTable
  else ecInitTables (countBits needed) k matrix gfTable

/-- The tables `createEncodingMatrix` builds: the needed rows of the generator. -/
def encodingTables (s : ReedSolomon) (needed nonZeroInput : ErasedMap) : Nat → Nat → UInt8 :=
  let encodeMatrix := selectRows (fun _ => 0) s.rsMatrix (s.rsK + s.rsM) s.rsK needed
  reducedTables s.rsK needed nonZeroInput encodeMatrix s.gfTable

/-- The tables `createRecoveryMatrix` builds: the needed rows of the generator
times the inverse of its available rows, or, for data parts only, the needed rows
of that inverse. A failed inversion only constructs an exception, which is not
thrown. -/
def recoveryTables (s : ReedSolomon) (needed erased nonZeroInput : ErasedMap) (recoverOnlyData : Bool) :
    Nat → Nat → UInt8 :=
  let k := s.rsK
  let tmpMatrix := selectRows (fun _ => 0) s.rsMatrix (k + s.rsM) k (~~~erased)
  let decodeMatrix := (gfInvertMatrix tmpMatrix (fun _ => 0) k).2
  let product :=
    if !recoverOnlyData then
      matrixMultiply s.gfTable (fun _ => 0) (countBits needed) k k
        (selectRows tmpMatrix s.rsMatrix (k + s.rsM) k needed) decodeMatrix
    else (s.gfTable, selectRows (fun _ => 0) decodeMatrix k k needed)
  reducedTables k needed nonZeroInput product.2 product.1

/-- The cache check of both matrix builders: new tables only for a new key. -/
def withCache (s : ReedSolomon) (needed erased nonZeroInput : ErasedMap) (tables : Nat → Nat → UInt8) :
    ReedSolomon :=
  if needed = s.neededParts ∧ erased = s.erasedParts ∧ nonZeroInput = s.nonZeroInput then s
  else { s with gfTable := tables, neededParts := needed, erasedParts := erased, nonZeroInput := nonZeroInput }

/-- `createEncodingMatrix(needed, erased, non_zero_input)`. -/
def createEncodingMatrix (s : ReedSolomon) (needed erased nonZeroInput : ErasedMap) : ReedSolomon :=
  withCache s needed erased nonZeroInput (encodingTables s needed nonZeroInput)

/-- `createRecoveryMatrix(needed, erased, non_zero_input, recover_only_data)`. -/
def createRecoveryMatrix (s : ReedSolomon) (needed erased nonZeroInput : ErasedMap) (recoverOnlyData : Bool) :
    ReedSolomon :=
  withCache s needed erased nonZeroInput (recoveryTables s needed erased nonZeroInput recoverOnlyData)

/-- One pass of the first loop of `encode`: a data part given is an input. -/
def encodeInputs (dataFragments : Nat → Option (List UInt8)) (acc : ErasedMap × List (List UInt8)) (i : Nat) :
    ErasedMap × List (List UInt8) :=
  match dataFragments i with
  | some fragment => (setBit acc.1 i, acc.2 ++ [fragment])
  | none => acc

/-- One pass of the second loop of `encode`: parity part `i` is needed and erased. -/
def encodeParity (rsK : Nat) (acc : ErasedMap × ErasedMap) (i : Nat) : ErasedMap × ErasedMap :=
  (setBit acc.1 (rsK + i), setBit acc.2 (rsK + i))

/-- `encode(data_fragments, parity_fragments, data_size)`: the new object and the
`m` parity parts written. -/
def encode (s : ReedSolomon) (dataFragments : Nat → Option (List UInt8)) (dataSize : Nat) :
    ReedSolomon × List (List UInt8) :=
  let inputs := (List.range s.rsK).foldl (encodeInputs dataFragments) (0, [])
  let parity := (List.range s.rsM).foldl (encodeParity s.rsK) (0, 0)
  let s := createEncodingMatrix s parity.1 parity.2 inputs.1
  (s, ecEncodeData dataSize inputs.2.length s.rsM s.gfTable inputs.2)

/-- The locals of the first loop of `recover`. -/
structure RecoverScan where
  needed : ErasedMap
  nonZeroInput : ErasedMap
  inParts : List (List UInt8)
  outParts : List Nat
  inWithZeroCount : Nat
  dataPartCount : Nat
  parityPartCount : Nat

/-- One pass of the first loop of `recover`, for part `i`. -/
def recoverScan (rsK : Nat) (inputFragments : Nat → Option (List UInt8)) (erased : ErasedMap)
    (outputFragments : Nat → Bool) (sc : RecoverScan) (i : Nat) : RecoverScan :=
  let sc :=
    if erased.getLsbD i && outputFragments i then
      { sc with
        needed := setBit sc.needed i
        outParts := sc.outParts ++ [i]
        parityPartCount := sc.parityPartCount + if i ≥ rsK then 1 else 0 }
    else sc
  if !erased.getLsbD i then
    let sc :=
      match inputFragments i with
      | some fragment =>
        { sc with
          inParts := sc.inParts ++ [fragment]
          nonZeroInput := setBit sc.nonZeroInput sc.inWithZeroCount }
      | none => sc
    { sc with
      inWithZeroCount := sc.inWithZeroCount + 1
      dataPartCount := sc.dataPartCount + if i < rsK then 1 else 0 }
  else sc

/-- `recover(input_fragments, erased, output_fragments, data_size)`: the new object
and, for each part, the output written for it (`output_fragments[i]` tells whether
there is a buffer). -/
def recover (s : ReedSolomon) (inputFragments : Nat → Option (List UInt8)) (erased : ErasedMap)
    (outputFragments : Nat → Bool) (dataSize : Nat) : ReedSolomon × (Nat → Option (List UInt8)) :=
  let sc := (List.range (s.rsK + s.rsM)).foldl (recoverScan s.rsK inputFragments erased outputFragments)
    ⟨0, 0, [], [], 0, 0, 0⟩
  let s :=
    if sc.dataPartCount = s.rsK then createEncodingMatrix s sc.needed erased sc.nonZeroInput
    else createRecoveryMatrix s sc.needed erased sc.nonZeroInput (sc.parityPartCount == 0)
  let written := ecEncodeData dataSize sc.inParts.length sc.outParts.length s.gfTable sc.inParts
  (s, fun i => (sc.outParts.zip written).lookup i)

/-! ## Bit sets -/

@[simp] theorem getLsbD_setBit (bits : ErasedMap) (i j : Nat) :
    (setBit bits i).getLsbD j = (bits.getLsbD j || decide (i < 64) && decide (i = j)) := by
  simp [setBit, BitVec.getLsbD_twoPow]

@[simp] theorem countBits_zero : countBits 0#64 = 0 := by
  simp [countBits]

/-- A set of parts below `n` counts the parts below `n`. -/
theorem countBits_eq (bits : ErasedMap) {n : Nat} (le : n ≤ 64) (below : ∀ i, bits.getLsbD i → i < n) :
    countBits bits = ((List.range n).filter bits.getLsbD).length := by
  have split : List.range 64 = List.range (n + (64 - n)) := by rw [Nat.add_sub_cancel' le]
  rw [countBits, split, List.range_add, List.filter_append, List.length_append]
  have empty : ((List.range (64 - n)).map (n + ·)).filter bits.getLsbD = [] := by
    rw [List.filter_eq_nil_iff]
    intro i member set
    obtain ⟨j, -, rfl⟩ := List.mem_map.mp member
    have := below _ set
    omega
  rw [empty, List.length_nil, Nat.add_zero]

/-! ## The matrix helpers -/

section Helpers

variable (out inp : Nat → GF) (s1 s2 : Nat) (req : ErasedMap)

/-- Output row `r` is the `r`-th required row. -/
theorem selectRows_apply {r j : Nat} (hr : r < ((List.range s1).filter req.getLsbD).length) (hj : j < s2) :
    selectRows out inp s1 s2 req (r * s2 + j) = inp (((List.range s1).filter req.getLsbD)[r] * s2 + j) := by
  have := packBlocks_apply_block req.getLsbD s2 (fun i j => inp (i * s2 + j)) (List.range s1) (out, 0) hr hj
  rwa [Nat.zero_add] at this

/-- Output row `i` holds the required columns of row `i`. -/
theorem selectColumns_apply {i r : Nat} (hi : i < s1) (hr : r < ((List.range s2).filter req.getLsbD).length) :
    selectColumns out inp s1 s2 req (i * ((List.range s2).filter req.getLsbD).length + r) =
      inp (i * s2 + ((List.range s2).filter req.getLsbD)[r]) := by
  have := foldl_packBlocks_apply req.getLsbD (fun i j => inp (i * s2 + j)) (List.range s2) (List.range s1)
    (out, 0) (by simpa using hi) hr
  rw [selectColumns]
  simpa using this

end Helpers

theorem ecInitTables_comm (k rows : Nat) (a : Nat → GF) (gTbls : Nat → Nat → UInt8) :
    ecInitTables k rows a gTbls = ecInitTables rows k a gTbls := by
  funext t b
  simp only [ecInitTables, Nat.mul_comm]

/-- Entry `(l, j)` of the product is row `l` of `a_matrix` times column `j` of
`b_matrix`, when the inner size `s3` is also the row length `s2`. -/
theorem matrixMultiply_apply (gfTable : Nat → Nat → UInt8) (out aMatrix bMatrix : Nat → GF) {s1 s2 l j : Nat}
    (hl : l < s1) (hj : j < s2) :
    (matrixMultiply gfTable out s1 s2 s2 aMatrix bMatrix).2 (l * s2 + j) =
      ∑ c ∈ Finset.range s2, aMatrix (l * s2 + c) * bMatrix (c * s2 + j) := by
  have inside : l * s2 + j < s1 * s2 := by nlinarith
  have row : (l * s2 + j) / s2 = l := by
    rw [Nat.mul_comm, Nat.mul_add_div (by omega), Nat.div_eq_of_lt hj, Nat.add_zero]
  have col : (l * s2 + j) % s2 = j := by
    rw [Nat.mul_comm, Nat.mul_add_mod, Nat.mod_eq_of_lt hj]
  -- column `c` of the sources is row `c` of `b_matrix`
  have terms : ∀ c ∈ Finset.range s2, aMatrix (l * s2 + c) *
      ⟨((((List.range s2).map fun i => (List.range s2).map fun j => (bMatrix (i * s2 + j)).val).getD c []).getD
        j 0)⟩ = aMatrix (l * s2 + c) * bMatrix (c * s2 + j) := by
    intro c member
    have hc := Finset.mem_range.mp member
    simp [List.getD_eq_getElem?_getD, hc, hj]
  simp only [matrixMultiply, if_pos inside, row, col]
  rw [ecEncodeData_eq aMatrix gfTable _ hl hj, Finset.sum_congr rfl terms]

/-- The product does not depend on what `gf_table_` held before. -/
theorem matrixMultiply_snd_congr (gfTable gfTable' : Nat → Nat → UInt8) (out aMatrix bMatrix : Nat → GF)
    (s1 s2 s3 : Nat) :
    (matrixMultiply gfTable out s1 s2 s3 aMatrix bMatrix).2 = (matrixMultiply gfTable' out s1 s2 s3 aMatrix bMatrix).2 := by
  have same : ∀ rows : List (List UInt8), ecEncodeData s2 s3 s1 (ecInitTables s3 s1 aMatrix gfTable) rows =
      ecEncodeData s2 s3 s1 (ecInitTables s3 s1 aMatrix gfTable') rows :=
    fun rows => ecEncodeData_congr rows fun t lt => funext fun b => by simp [ecInitTables, lt]
  simp only [matrixMultiply, same]

/-! ## The tables built on a cache miss -/

/-- The tables the coder reads after building them for a key. -/
def usedTables (k : Nat) (needed nonZeroInput : ErasedMap) : Nat :=
  (if countBits nonZeroInput < k then countBits nonZeroInput else k) * countBits needed

/-- The tables read do not depend on what `gf_table_` held before. -/
theorem reducedTables_congr (k : Nat) (needed nonZeroInput : ErasedMap) (matrix : Nat → GF)
    (gfTable gfTable' : Nat → Nat → UInt8) {t : Nat} (used : t < usedTables k needed nonZeroInput) :
    reducedTables k needed nonZeroInput matrix gfTable t = reducedTables k needed nonZeroInput matrix gfTable' t := by
  unfold usedTables at used
  unfold reducedTables
  split
  · next fewer =>
    rw [if_pos fewer] at used
    funext b
    simp only [ecInitTables, if_pos used]
  · next all =>
    rw [if_neg all] at used
    funext b
    simp only [ecInitTables, if_pos used]

/-! ## The loop of `recover` over the parts -/

/-- The parts below `n` that are not erased, in order. -/
def availableParts (erased : ErasedMap) (n : Nat) : List Nat := (List.range n).filter fun i => !erased.getLsbD i

theorem availableParts_succ (erased : ErasedMap) (n : Nat) :
    availableParts erased (n + 1) = availableParts erased n ++ if erased.getLsbD n then [] else [n] := by
  by_cases erasedN : erased.getLsbD n <;> simp [availableParts, List.range_succ, List.filter_append, erasedN]

section Scan

variable (k : Nat) (inputs : Nat → Option (List UInt8)) (erased : ErasedMap) (outputs : Nat → Bool)

/-- The first loop of `recover`, over the parts below `n`. -/
def scanParts (n : Nat) : RecoverScan :=
  (List.range n).foldl (recoverScan k inputs erased outputs) ⟨0, 0, [], [], 0, 0, 0⟩

theorem scanParts_succ (n : Nat) :
    scanParts k inputs erased outputs (n + 1) = recoverScan k inputs erased outputs (scanParts k inputs erased outputs n) n := by
  simp [scanParts, List.range_succ, List.foldl_append]

/-! What one pass does to each local. -/

section Step

variable (sc : RecoverScan) (i : Nat)

theorem recoverScan_outParts : (recoverScan k inputs erased outputs sc i).outParts =
    sc.outParts ++ if erased.getLsbD i && outputs i then [i] else [] := by
  unfold recoverScan
  cases e : erased.getLsbD i <;> cases o : outputs i <;> cases inputs i <;> simp

theorem recoverScan_needed : (recoverScan k inputs erased outputs sc i).needed =
    if erased.getLsbD i && outputs i then setBit sc.needed i else sc.needed := by
  unfold recoverScan
  cases e : erased.getLsbD i <;> cases o : outputs i <;> cases inputs i <;> simp

theorem recoverScan_parityPartCount : (recoverScan k inputs erased outputs sc i).parityPartCount =
    sc.parityPartCount + if erased.getLsbD i && outputs i && decide (k ≤ i) then 1 else 0 := by
  unfold recoverScan
  cases e : erased.getLsbD i <;> cases o : outputs i <;> cases inputs i <;> simp

theorem recoverScan_inWithZeroCount : (recoverScan k inputs erased outputs sc i).inWithZeroCount =
    sc.inWithZeroCount + if erased.getLsbD i then 0 else 1 := by
  unfold recoverScan
  cases e : erased.getLsbD i <;> cases o : outputs i <;> cases inputs i <;> simp

theorem recoverScan_dataPartCount : (recoverScan k inputs erased outputs sc i).dataPartCount =
    sc.dataPartCount + if !erased.getLsbD i && decide (i < k) then 1 else 0 := by
  unfold recoverScan
  cases e : erased.getLsbD i <;> cases o : outputs i <;> cases inputs i <;> simp

theorem recoverScan_inParts : (recoverScan k inputs erased outputs sc i).inParts =
    sc.inParts ++ if erased.getLsbD i then [] else (inputs i).toList := by
  unfold recoverScan
  cases e : erased.getLsbD i <;> cases o : outputs i <;> cases inputs i <;> simp

theorem recoverScan_nonZeroInput : (recoverScan k inputs erased outputs sc i).nonZeroInput =
    if !erased.getLsbD i && (inputs i).isSome then setBit sc.nonZeroInput sc.inWithZeroCount
    else sc.nonZeroInput := by
  unfold recoverScan
  cases e : erased.getLsbD i <;> cases o : outputs i <;> cases inputs i <;> simp

end Step

/-! What the whole loop computes. -/

variable (n : Nat)

theorem scanParts_outParts :
    (scanParts k inputs erased outputs n).outParts = (List.range n).filter fun i => erased.getLsbD i && outputs i := by
  induction n with
  | zero => rfl
  | succ n ih =>
    rw [scanParts_succ, recoverScan_outParts, ih, List.range_succ, List.filter_append]
    by_cases hit : erased.getLsbD n && outputs n <;> simp [hit]

theorem scanParts_needed (j : Nat) :
    (scanParts k inputs erased outputs n).needed.getLsbD j = (decide (j < n) && erased.getLsbD j && outputs j) := by
  induction n with
  | zero => simp [scanParts]
  | succ n ih =>
    rw [scanParts_succ, recoverScan_needed]
    split
    · next hit =>
      -- an erased part is below 64
      have present : erased.getLsbD n = true := by simp_all
      have small : n < 64 := BitVec.lt_of_getLsbD present
      rw [getLsbD_setBit, ih]
      by_cases same : n = j
      · subst same
        simp_all
      · have earlier : j < n + 1 ↔ j < n := by omega
        simp [same, earlier]
    · next hit =>
      rw [ih]
      by_cases same : n = j
      · subst same
        simp_all
      · have earlier : j < n + 1 ↔ j < n := by omega
        simp [earlier]

theorem scanParts_parityPartCount :
    (scanParts k inputs erased outputs n).parityPartCount =
      ((List.range n).filter fun i => erased.getLsbD i && outputs i && decide (k ≤ i)).length := by
  induction n with
  | zero => rfl
  | succ n ih =>
    rw [scanParts_succ, recoverScan_parityPartCount, ih, List.range_succ, List.filter_append, List.length_append]
    by_cases hit : erased.getLsbD n && outputs n && decide (k ≤ n) <;> simp [hit]

theorem scanParts_inWithZeroCount :
    (scanParts k inputs erased outputs n).inWithZeroCount = (availableParts erased n).length := by
  induction n with
  | zero => rfl
  | succ n ih =>
    rw [scanParts_succ, recoverScan_inWithZeroCount, ih, availableParts_succ]
    by_cases erasedN : erased.getLsbD n <;> simp [erasedN]

theorem scanParts_dataPartCount :
    (scanParts k inputs erased outputs n).dataPartCount =
      ((List.range n).filter fun i => !erased.getLsbD i && decide (i < k)).length := by
  induction n with
  | zero => rfl
  | succ n ih =>
    rw [scanParts_succ, recoverScan_dataPartCount, ih, List.range_succ, List.filter_append, List.length_append]
    by_cases hit : !erased.getLsbD n && decide (n < k) <;> simp [hit]

theorem scanParts_inParts :
    (scanParts k inputs erased outputs n).inParts = (availableParts erased n).filterMap inputs := by
  induction n with
  | zero => rfl
  | succ n ih =>
    rw [scanParts_succ, recoverScan_inParts, ih, availableParts_succ, List.filterMap_append]
    by_cases erasedN : erased.getLsbD n
    · simp [erasedN]
    · cases present : inputs n <;> simp [erasedN, present]

/-- The non-zero inputs are numbered among the available parts. -/
theorem scanParts_nonZeroInput (q : Nat) :
    (scanParts k inputs erased outputs n).nonZeroInput.getLsbD q =
      (decide (q < (availableParts erased n).length) && decide (q < 64) &&
        (inputs ((availableParts erased n).getD q 0)).isSome) := by
  induction n generalizing q with
  | zero => simp [scanParts, availableParts]
  | succ n ih =>
    rw [scanParts_succ, recoverScan_nonZeroInput, scanParts_inWithZeroCount, availableParts_succ]
    by_cases erasedN : erased.getLsbD n
    · simp [erasedN, ih]
    · -- part `n` is the next available one, number `(availableParts erased n).length`
      simp only [erasedN, Bool.not_false, Bool.true_and, Bool.false_eq_true, ↓reduceIte, List.length_append,
        List.length_singleton]
      by_cases same : q = (availableParts erased n).length
      · subst same
        cases present : inputs n <;> simp [ih, present]
      · have old : (availableParts erased n ++ [n]).getD q 0 = (availableParts erased n).getD q 0 := by
          by_cases below : q < (availableParts erased n).length
          · exact List.getD_append _ _ _ _ below
          · rw [List.getD_eq_default _ _ (by simp; omega), List.getD_eq_default _ _ (by omega)]
        have earlier : q < (availableParts erased n).length + 1 ↔ q < (availableParts erased n).length := by
          omega
        rw [old]
        cases inputs n <;> simp [ih, earlier, Ne.symm same]

end Scan

/-! ## The cache check -/

section Cache

variable (s : ReedSolomon) (needed erased nonZeroInput : ErasedMap) (tables : Nat → Nat → UInt8)

@[simp] theorem withCache_rsMatrix : (withCache s needed erased nonZeroInput tables).rsMatrix = s.rsMatrix := by
  unfold withCache
  split <;> rfl

@[simp] theorem withCache_rsK : (withCache s needed erased nonZeroInput tables).rsK = s.rsK := by
  unfold withCache
  split <;> rfl

@[simp] theorem withCache_rsM : (withCache s needed erased nonZeroInput tables).rsM = s.rsM := by
  unfold withCache
  split <;> rfl

end Cache

theorem encode_fst (s : ReedSolomon) (dataFragments : Nat → Option (List UInt8)) (dataSize : Nat) :
    (encode s dataFragments dataSize).1 =
      createEncodingMatrix s ((List.range s.rsM).foldl (encodeParity s.rsK) (0, 0)).1
        ((List.range s.rsM).foldl (encodeParity s.rsK) (0, 0)).2
        ((List.range s.rsK).foldl (encodeInputs dataFragments) (0, [])).1 := rfl

theorem recover_fst (s : ReedSolomon) (inputFragments : Nat → Option (List UInt8)) (erased : ErasedMap)
    (outputFragments : Nat → Bool) (dataSize : Nat) :
    (recover s inputFragments erased outputFragments dataSize).1 =
      let sc := scanParts s.rsK inputFragments erased outputFragments (s.rsK + s.rsM)
      if sc.dataPartCount = s.rsK then createEncodingMatrix s sc.needed erased sc.nonZeroInput
      else createRecoveryMatrix s sc.needed erased sc.nonZeroInput (sc.parityPartCount == 0) := rfl

/-! ## The loops of `encode` -/

theorem foldl_encodeInputs_fst (dataFragments : Nat → Option (List UInt8)) (n j : Nat) :
    ((List.range n).foldl (encodeInputs dataFragments) (0, [])).1.getLsbD j =
      (decide (j < n) && decide (j < 64) && (dataFragments j).isSome) := by
  induction n with
  | zero => simp
  | succ n ih =>
    rw [List.range_succ, List.foldl_append, List.foldl_cons, List.foldl_nil, encodeInputs]
    have earlier : j < n + 1 ↔ j < n ∨ j = n := by omega
    cases present : dataFragments n with
    | none =>
      dsimp only
      rw [ih]
      by_cases same : j = n
      · subst same
        simp [present]
      · simp [earlier, same]
    | some fragment =>
      dsimp only
      rw [getLsbD_setBit, ih]
      by_cases same : j = n
      · subst same
        simp [present]
      · simp [earlier, same, Ne.symm same]

theorem foldl_encodeInputs_snd (dataFragments : Nat → Option (List UInt8)) (n : Nat) :
    ((List.range n).foldl (encodeInputs dataFragments) (0, [])).2 = (List.range n).filterMap dataFragments := by
  induction n with
  | zero => rfl
  | succ n ih =>
    rw [List.range_succ, List.foldl_append, List.foldl_cons, List.foldl_nil, encodeInputs, List.filterMap_append,
      ← ih]
    cases present : dataFragments n <;> simp [present]

theorem foldl_encodeParity (k n : Nat) :
    (List.range n).foldl (encodeParity k) (0, 0) =
      (((List.range n).foldl (encodeParity k) (0, 0)).1, ((List.range n).foldl (encodeParity k) (0, 0)).1) ∧
    ∀ j, ((List.range n).foldl (encodeParity k) (0, 0)).1.getLsbD j =
      (decide (k ≤ j) && decide (j < k + n) && decide (j < 64)) := by
  induction n with
  | zero => simp
  | succ n ih =>
    obtain ⟨same, bits⟩ := ih
    rw [List.range_succ, List.foldl_append, List.foldl_cons, List.foldl_nil, encodeParity, same]
    refine ⟨rfl, fun j => ?_⟩
    simp only [getLsbD_setBit, bits]
    by_cases last : k + n = j
    · subst last
      simp
    · have earlier : j < k + (n + 1) ↔ j < k + n := by omega
      simp [last, earlier]

/-- The states an object reaches: constructed, then any calls. -/
inductive Reachable (k m : Nat) : ReedSolomon → Prop
  | create (gfTable : Nat → Nat → UInt8) (rsMatrix : Nat → GF) :
      Reachable k m (ReedSolomon.create k m gfTable rsMatrix)
  | encode {s : ReedSolomon} (dataFragments : Nat → Option (List UInt8)) (dataSize : Nat) :
      Reachable k m s → Reachable k m (encode s dataFragments dataSize).1
  | recover {s : ReedSolomon} (inputFragments : Nat → Option (List UInt8)) (erased : ErasedMap)
      (outputFragments : Nat → Bool) (dataSize : Nat) :
      Reachable k m s → Reachable k m (recover s inputFragments erased outputFragments dataSize).1

end SaunaFS
