import SaunaFS.Common.ReedSolomon

/-! What a `ReedSolomon` object keeps over every sequence of calls (`Invariant`):
the dimensions and the generator its constructor made, and a cache whose tables,
as far as they are read, are the ones a cache miss builds for the cached key
(`CacheHolds`).

The key alone fixes what a miss builds: `recover` builds the encoding tables
exactly when no data part is erased, as `encode` does, whose erased parts are the
parity parts; and it recovers data parts only when no needed part is a parity
part. So a table served from the cache is the table the call would have built.
-/

set_option autoImplicit false

namespace SaunaFS

open SystematicCode

/-- The parity rows `createRSMatrix` generates for `k` data and `m` parity parts. -/
def parityRows (k m : Nat) : Matrix (Fin m) (Fin k) GF :=
  if m ≥ 5 ∨ (m = 4 ∧ k > 20) then cauchyParity k m else rsParity k m

/-- Whether no data part is erased: `recover` then takes the encoding path. -/
def noDataErased (k : Nat) (erased : ErasedMap) : Bool := (List.range k).all fun i => !erased.getLsbD i

/-- Whether only data parts are needed. -/
def onlyDataNeeded (k m : Nat) (needed : ErasedMap) : Bool :=
  (List.range (k + m)).all fun i => !(needed.getLsbD i && decide (k ≤ i))

/-- The tables a cache miss builds for a key. -/
def missTables (s : ReedSolomon) (needed erased nonZeroInput : ErasedMap) : Nat → Nat → UInt8 :=
  if noDataErased s.rsK erased then encodingTables s needed nonZeroInput
  else recoveryTables s needed erased nonZeroInput (onlyDataNeeded s.rsK s.rsM needed)

/-- The cached tables, as far as they are read, are those a miss builds for the cached key. -/
def CacheHolds (s : ReedSolomon) : Prop :=
  ∀ t < usedTables s.rsK s.neededParts s.nonZeroInput,
    s.gfTable t = missTables s s.neededParts s.erasedParts s.nonZeroInput t

/-- What every reachable object satisfies. -/
structure Invariant (k m : Nat) (s : ReedSolomon) : Prop where
  rsK : s.rsK = k
  rsM : s.rsM = m
  code : toMatrix s.rsMatrix (k + m) k = generator (parityRows k m)
  cache : CacheHolds s

/-! ## The generator -/

theorem parityRows_squareNonsingular {k m : Nat} (hk : k ≤ 32) (hm : m ≤ 32) :
    SquareNonsingular (parityRows k m) := by
  unfold parityRows
  split
  · exact cauchyParity_squareNonsingular (by omega)
  · exact rsParity_squareNonsingular (by omega)

theorem createRSMatrix_rsMatrix (s : ReedSolomon) {k m : Nat} (fresh : ¬ (k = s.rsK ∧ m = s.rsM)) :
    toMatrix (createRSMatrix s k m).rsMatrix (k + m) k = generator (parityRows k m) := by
  unfold createRSMatrix parityRows
  rw [if_neg fresh]
  split
  · exact toMatrix_gfGenCauchy1Matrix _ _ _
  · exact toMatrix_gfGenRsMatrix _ _ _

/-! ## The cache -/

section Congr

variable {s s' : ReedSolomon} (matrix : s'.rsMatrix = s.rsMatrix) (dataCount : s'.rsK = s.rsK)
  (parityCount : s'.rsM = s.rsM)
include matrix dataCount parityCount

/-- The tables read after a miss depend only on the generator and the key. -/
theorem missTables_congr (needed erased nonZeroInput : ErasedMap) {t : Nat}
    (used : t < usedTables s.rsK needed nonZeroInput) :
    missTables s' needed erased nonZeroInput t = missTables s needed erased nonZeroInput t := by
  simp only [missTables, encodingTables, recoveryTables, matrix, dataCount, parityCount]
  split
  · exact reducedTables_congr _ _ _ _ _ _ used
  · -- the product does not read the old tables either
    split
    · rw [matrixMultiply_snd_congr s'.gfTable s.gfTable]
      exact reducedTables_congr _ _ _ _ _ _ used
    · exact reducedTables_congr _ _ _ _ _ _ used

end Congr

/-- A call through the cache: the key is stored, and when the tables it would
build are those of a miss, the tables read afterwards are those of a miss. -/
theorem withCache_spec {s : ReedSolomon} (holds : CacheHolds s) (needed erased nonZeroInput : ErasedMap)
    (tables : Nat → Nat → UInt8) (path : tables = missTables s needed erased nonZeroInput) :
    CacheHolds (withCache s needed erased nonZeroInput tables) ∧
      ∀ t < usedTables s.rsK needed nonZeroInput,
        (withCache s needed erased nonZeroInput tables).gfTable t = missTables s needed erased nonZeroInput t := by
  unfold withCache
  split
  · next hit =>
    obtain ⟨rfl, rfl, rfl⟩ := hit
    exact ⟨holds, holds⟩
  · -- a miss stores the key with the tables built for it
    subst path
    refine ⟨?_, fun t _ => rfl⟩
    intro t used
    dsimp only at used ⊢
    exact (@missTables_congr s ⟨missTables s needed erased nonZeroInput, s.rsMatrix, erased, needed,
      nonZeroInput, s.rsK, s.rsM⟩ rfl rfl rfl needed erased nonZeroInput t used).symm

/-! ## Which path a key takes -/

theorem encode_key (k m : Nat) :
    noDataErased k ((List.range m).foldl (encodeParity k) (0, 0)).2 = true := by
  obtain ⟨same, bits⟩ := foldl_encodeParity k m
  rw [same]
  simp only [noDataErased, List.all_eq_true, List.mem_range, bits]
  intro i below
  simp [below]

/-- `recover` takes the encoding path exactly when no data part is erased. -/
theorem recover_dataPartCount (k m : Nat) (inputs : Nat → Option (List UInt8)) (erased : ErasedMap)
    (outputs : Nat → Bool) :
    (scanParts k inputs erased outputs (k + m)).dataPartCount = k ↔ noDataErased k erased = true := by
  have dataParts : ((List.range (k + m)).filter fun i => !erased.getLsbD i && decide (i < k)) =
      (List.range k).filter fun i => !erased.getLsbD i := by
    rw [List.range_add, List.filter_append]
    have late : ((List.range m).map (k + ·)).filter (fun i => !erased.getLsbD i && decide (i < k)) = [] := by
      simp
    rw [late, List.append_nil]
    exact List.filter_congr fun i member => by simp [List.mem_range.mp member]
  rw [scanParts_dataPartCount, dataParts, noDataErased, List.all_eq_true]
  conv => lhs; rhs; rw [← List.length_range (n := k)]
  rw [List.length_filter_eq_length_iff]

/-- `recover` recovers data parts only exactly when no needed part is a parity part. -/
theorem recover_parityPartCount (k m : Nat) (inputs : Nat → Option (List UInt8)) (erased : ErasedMap)
    (outputs : Nat → Bool) :
    ((scanParts k inputs erased outputs (k + m)).parityPartCount == 0) =
      onlyDataNeeded k m (scanParts k inputs erased outputs (k + m)).needed := by
  rw [scanParts_parityPartCount, onlyDataNeeded, Bool.eq_iff_iff, beq_iff_eq, List.length_eq_zero_iff,
    List.filter_eq_nil_iff, List.all_eq_true]
  refine forall₂_congr fun i member => ?_
  rw [scanParts_needed]
  cases erased.getLsbD i <;> cases outputs i <;> simp [List.mem_range.mp member]

/-! ## Over every run -/

theorem encode_spec {s : ReedSolomon} (holds : CacheHolds s) (dataFragments : Nat → Option (List UInt8))
    (dataSize : Nat) :
    CacheHolds (encode s dataFragments dataSize).1 ∧
      ∀ t < usedTables s.rsK ((List.range s.rsM).foldl (encodeParity s.rsK) (0, 0)).1
          ((List.range s.rsK).foldl (encodeInputs dataFragments) (0, [])).1,
        (encode s dataFragments dataSize).1.gfTable t =
          missTables s ((List.range s.rsM).foldl (encodeParity s.rsK) (0, 0)).1
            ((List.range s.rsM).foldl (encodeParity s.rsK) (0, 0)).2
            ((List.range s.rsK).foldl (encodeInputs dataFragments) (0, [])).1 t := by
  rw [encode_fst]
  apply withCache_spec holds
  rw [missTables, if_pos (encode_key s.rsK s.rsM)]

theorem recover_spec {s : ReedSolomon} (holds : CacheHolds s) (inputFragments : Nat → Option (List UInt8))
    (erased : ErasedMap) (outputFragments : Nat → Bool) (dataSize : Nat) :
    CacheHolds (recover s inputFragments erased outputFragments dataSize).1 ∧
      ∀ t < usedTables s.rsK (scanParts s.rsK inputFragments erased outputFragments (s.rsK + s.rsM)).needed
          (scanParts s.rsK inputFragments erased outputFragments (s.rsK + s.rsM)).nonZeroInput,
        (recover s inputFragments erased outputFragments dataSize).1.gfTable t =
          missTables s (scanParts s.rsK inputFragments erased outputFragments (s.rsK + s.rsM)).needed erased
            (scanParts s.rsK inputFragments erased outputFragments (s.rsK + s.rsM)).nonZeroInput t := by
  rw [recover_fst]
  dsimp only
  split
  · next encoding =>
    apply withCache_spec holds
    rw [missTables, if_pos ((recover_dataPartCount _ _ _ _ _).mp encoding)]
  · next recovery =>
    apply withCache_spec holds
    rw [missTables, if_neg (fun none => recovery ((recover_dataPartCount _ _ _ _ _).mpr
      (by simpa using none))), recover_parityPartCount]

theorem create_invariant {k m : Nat} (positive : 0 < k) (gfTable : Nat → Nat → UInt8) (rsMatrix : Nat → GF) :
    Invariant k m (ReedSolomon.create k m gfTable rsMatrix) := by
  have fresh : ¬ (k = 0 ∧ m = 0) := by omega
  refine ⟨?_, ?_, createRSMatrix_rsMatrix _ fresh, ?_⟩
  · simp [ReedSolomon.create, createRSMatrix, fresh]
  · simp [ReedSolomon.create, createRSMatrix, fresh]
  · -- nothing is read from the tables of the empty key
    intro t used
    simp [ReedSolomon.create, createRSMatrix, fresh, usedTables] at used

theorem encode_invariant {k m : Nat} {s : ReedSolomon} (inv : Invariant k m s)
    (dataFragments : Nat → Option (List UInt8)) (dataSize : Nat) :
    Invariant k m (encode s dataFragments dataSize).1 := by
  refine ⟨?_, ?_, ?_, (encode_spec inv.cache dataFragments dataSize).1⟩ <;>
    simp [encode_fst, createEncodingMatrix, inv.rsK, inv.rsM, inv.code]

theorem recover_invariant {k m : Nat} {s : ReedSolomon} (inv : Invariant k m s)
    (inputFragments : Nat → Option (List UInt8)) (erased : ErasedMap) (outputFragments : Nat → Bool)
    (dataSize : Nat) :
    Invariant k m (recover s inputFragments erased outputFragments dataSize).1 := by
  refine ⟨?_, ?_, ?_, (recover_spec inv.cache inputFragments erased outputFragments dataSize).1⟩ <;>
    rw [recover_fst] <;> dsimp only <;> split <;>
    simp [createEncodingMatrix, createRecoveryMatrix, inv.rsK, inv.rsM, inv.code]

/-- The invariant holds of every object, whatever calls it has served. -/
theorem Reachable.invariant {k m : Nat} (positive : 0 < k) {s : ReedSolomon} (reach : Reachable k m s) :
    Invariant k m s := by
  induction reach with
  | create gfTable rsMatrix => exact create_invariant positive gfTable rsMatrix
  | encode dataFragments dataSize _ inv => exact encode_invariant inv dataFragments dataSize
  | recover inputFragments erased outputFragments dataSize _ inv =>
    exact recover_invariant inv inputFragments erased outputFragments dataSize

end SaunaFS
