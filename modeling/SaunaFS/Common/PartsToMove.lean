import SaunaFS.Common.OperationCount

/-! The per-part operation counts of a chunk (`src/common/chunk_copies_calculator.cc`):
`evalOperationCount` fills `slice_operation_count_`, `countPartsToMove` reads it, and
`getLabelsToRecover` and `getRemovePool` give the labels to add copies on and the
labels to take copies from.

`slice_operation_count_` is an association list from slice type to the counts of the
parts, in the order `evalOperationCount` fills it; its keys are distinct, so a lookup
finds what the source's `flat_map` holds. The totals in `operation_count_` are left out.
-/

set_option autoImplicit false

namespace SaunaFS

variable {Label : Type}

namespace Goal

/-- The labels of part `part` of the slice of type `sliceType`; none without the slice. -/
def partLabels (goal : Goal Label) (sliceType : SliceType) (part : Nat) : Labels Label :=
  ((goal.find sliceType).map fun slice => slice.parts.getD part []).getD []

theorem partLabels_of_find {goal : Goal Label} {sliceType : SliceType} {slice : Slice Label}
    (found : goal.find sliceType = some slice) (part : Nat) :
    goal.partLabels sliceType part = slice.parts.getD part [] := by
  simp [partLabels, found]

theorem partLabels_of_find_none {goal : Goal Label} {sliceType : SliceType} (missing : goal.find sliceType = none)
    (part : Nat) : goal.partLabels sliceType part = [] := by
  simp [partLabels, missing]

variable [LinearOrder Label]

/-- Every part of every slice is a `flat_map`: its labels strictly increase. -/
def LabelsSorted (goal : Goal Label) : Prop :=
  ∀ slice ∈ goal.slices, ∀ labels ∈ slice.parts, SortedKeys.Strict Prod.fst labels

instance (goal : Goal Label) : Decidable goal.LabelsSorted :=
  inferInstanceAs (Decidable (∀ slice ∈ goal.slices, ∀ labels ∈ slice.parts, SortedKeys.Strict Prod.fst labels))

theorem LabelsSorted.partLabels {goal : Goal Label} (sorted : goal.LabelsSorted) (sliceType : SliceType)
    (part : Nat) : SortedKeys.Strict Prod.fst (goal.partLabels sliceType part) := by
  cases found : goal.find sliceType with
  | none =>
    rw [partLabels_of_find_none found]
    exact List.Pairwise.nil
  | some slice =>
    rw [partLabels_of_find found, List.getD_eq_getElem?_getD]
    cases present : slice.parts[part]? with
    | none => exact List.Pairwise.nil
    | some labels =>
      exact sorted slice (goal.mem_of_find found).1 labels (List.mem_of_getElem? present)

end Goal

variable [LinearOrder Label] [OrderTop Label]

namespace ChunkCopiesCalculator

/-- `evalOperationCount()`: `slice_operation_count_` as it leaves it. A target slice
that `available_` lacks has all its copies to add, an available slice that `target_`
lacks all its copies to remove. -/
def evalOperationCount (calculator : ChunkCopiesCalculator Label) : List (SliceType × List (Int × Int)) :=
  (calculator.target.slices.map fun slice =>
    (slice.type,
      match calculator.available.find slice.type with
      | none => slice.parts.map fun part => ((part.countLabels : Int), 0)
      | some srcSlice => (srcSlice.parts.zip slice.parts).map fun parts => operationCount parts.1 parts.2)) ++
  calculator.available.slices.filterMap fun slice =>
    match calculator.target.find slice.type with
    | none => some (slice.type, slice.parts.map fun part => (0, (part.countLabels : Int)))
    | some _ => none

/-- `countPartsToMove(slice_type, part)`, reading `slice_operation_count_`. -/
def countPartsToMove (sliceOperationCount : List (SliceType × List (Int × Int))) (sliceType : SliceType)
    (part : Nat) : Int × Int :=
  match sliceOperationCount.lookup sliceType with
  | none => (0, 0)
  | some counts => counts.getD part (0, 0)

/-- `getLabelsToRecover(slice_type, part)`. -/
def getLabelsToRecover (calculator : ChunkCopiesCalculator Label) (sliceType : SliceType) (part : Nat) :
    Labels Label :=
  match calculator.target.find sliceType with
  | none => []
  | some targetSlice =>
    match calculator.available.find sliceType with
    | none => targetSlice.parts.getD part []
    | some availableSlice => labelsToRecover (availableSlice.parts.getD part []) (targetSlice.parts.getD part [])

/-- `getRemovePool(slice_type, part)`. -/
def getRemovePool (calculator : ChunkCopiesCalculator Label) (sliceType : SliceType) (part : Nat) :
    Labels Label :=
  match calculator.available.find sliceType with
  | none => []
  | some availableSlice =>
    match calculator.target.find sliceType with
    | none => availableSlice.parts.getD part []
    | some targetSlice => removePool (availableSlice.parts.getD part []) (targetSlice.parts.getD part [])

section Counts

variable {calculator : ChunkCopiesCalculator Label} {sliceType : SliceType} {targetSlice : Slice Label}
  (found : calculator.target.find sliceType = some targetSlice) {part : Nat} (valid : part < sliceType.expectedParts)
include found valid

/-- The counts `evalOperationCount` keeps for a part of a target slice. -/
theorem countPartsToMove_evalOperationCount :
    countPartsToMove calculator.evalOperationCount sliceType part =
      (match calculator.available.find sliceType with
        | none => targetSlice.parts.map fun (part : Labels Label) => ((part.countLabels : Int), 0)
        | some srcSlice => (srcSlice.parts.zip targetSlice.parts).map
            fun (parts : Labels Label × Labels Label) => operationCount parts.1 parts.2).getD part (0, 0) := by
  obtain ⟨-, rfl⟩ := calculator.target.mem_of_find found
  have first : calculator.target.slices.find? (fun slice => slice.type = targetSlice.type) = some targetSlice := found
  rw [countPartsToMove, evalOperationCount, List.lookup_append, KeyedList.lookup_map, first]
  rfl

/-- A target slice that `available_` lacks has every copy of the part to add. -/
theorem countPartsToMove_of_unavailable (missing : calculator.available.find sliceType = none) :
    countPartsToMove calculator.evalOperationCount sliceType part =
      (((calculator.target.partLabels sliceType part).countLabels : Int), 0) := by
  have bound : part < targetSlice.parts.length := by
    rw [targetSlice.parts_length, (calculator.target.mem_of_find found).2]
    exact valid
  rw [countPartsToMove_evalOperationCount found valid, missing, Goal.partLabels_of_find found]
  dsimp only
  rw [List.getD_eq_getElem?_getD, List.getElem?_map, List.getD_eq_getElem?_getD, List.getElem?_eq_getElem bound]
  rfl

/-- For a slice that both hold, the counts are `operationCount` of the part. -/
theorem countPartsToMove_of_available {srcSlice : Slice Label} (present : calculator.available.find sliceType = some srcSlice) :
    countPartsToMove calculator.evalOperationCount sliceType part =
      operationCount (calculator.available.partLabels sliceType part) (calculator.target.partLabels sliceType part) := by
  have targetBound : part < targetSlice.parts.length := by
    rw [targetSlice.parts_length, (calculator.target.mem_of_find found).2]
    exact valid
  have srcBound : part < srcSlice.parts.length := by
    rw [srcSlice.parts_length, (calculator.available.mem_of_find present).2]
    exact valid
  rw [countPartsToMove_evalOperationCount found valid, present, Goal.partLabels_of_find found,
    Goal.partLabels_of_find present]
  dsimp only
  rw [List.getD_eq_getElem?_getD, List.getElem?_map, List.getElem?_eq_getElem (by simp [srcBound, targetBound]),
    List.getElem_zip, List.getD_eq_getElem?_getD, List.getD_eq_getElem?_getD, List.getElem?_eq_getElem srcBound,
    List.getElem?_eq_getElem targetBound]
  rfl

end Counts

/-- `getLabelsToRecover` and `getRemovePool` agree with the counts `evalOperationCount`
keeps for a part of a target slice: the labels to recover hold as many copies as
there are parts to add, their wildcard entry is the wildcard demand that the surplus
leaves, and the pool to remove from is empty exactly when there is nothing to remove
and holds only labels that the target lacks or asks fewer copies of. -/
theorem getLabelsToRecover_getRemovePool_agree (calculator : ChunkCopiesCalculator Label) (sliceType : SliceType)
    (part : Nat) (targeted : (calculator.target.find sliceType).isSome) (valid : part < sliceType.expectedParts)
    (sortedAvailable : calculator.available.LabelsSorted) (sortedTarget : calculator.target.LabelsSorted) :
    let moves := countPartsToMove calculator.evalOperationCount sliceType part
    let src := calculator.available.partLabels sliceType part
    let dst := calculator.target.partLabels sliceType part
    ((calculator.getLabelsToRecover sliceType part).countLabels : Int) = moves.1 ∧
      (calculator.getLabelsToRecover sliceType part).count ⊤ = max (dst.count ⊤ - surplusCopies src dst) 0 ∧
      (calculator.getRemovePool sliceType part ≠ [] ↔ 0 < moves.2) ∧
      ∀ entry ∈ calculator.getRemovePool sliceType part,
        (Labels.explicit dst).lookup entry.1 = none ∨ (Labels.explicit dst).count entry.1 < src.count entry.1 := by
  intro moves src dst
  obtain ⟨targetSlice, found⟩ := Option.isSome_iff_exists.mp targeted
  have sortedSrc : SortedKeys.Strict Prod.fst src := sortedAvailable.partLabels sliceType part
  have sortedDst : SortedKeys.Strict Prod.fst dst := sortedTarget.partLabels sliceType part
  cases present : calculator.available.find sliceType with
  | none =>
    -- nothing of the slice is available: every copy of the target part is to add
    have recover : calculator.getLabelsToRecover sliceType part = dst := by
      simp only [getLabelsToRecover, found, present, dst, Goal.partLabels_of_find found]
    have pool : calculator.getRemovePool sliceType part = [] := by
      simp only [getRemovePool, present]
    have counts : moves = ((dst.countLabels : Int), 0) := countPartsToMove_of_unavailable found valid present
    have noSurplus : surplusCopies src dst = 0 := by
      simp only [src, Goal.partLabels_of_find_none present]
      rfl
    have wildcard := Labels.count_nonneg dst ⊤
    refine ⟨by rw [recover, counts], ?_, by simp [pool, counts], by simp [pool]⟩
    rw [recover, noSurplus]
    omega
  | some srcSlice =>
    have recover : calculator.getLabelsToRecover sliceType part = labelsToRecover src dst := by
      simp only [getLabelsToRecover, found, present, src, dst, Goal.partLabels_of_find found,
        Goal.partLabels_of_find present]
    have pool : calculator.getRemovePool sliceType part = removePool src dst := by
      simp only [getRemovePool, found, present, src, dst, Goal.partLabels_of_find found,
        Goal.partLabels_of_find present]
    have counts : moves = operationCount src dst := countPartsToMove_of_available found valid present
    rw [recover, pool, counts]
    exact ⟨countLabels_labelsToRecover sortedSrc sortedDst, count_labelsToRecover_wildcard sortedSrc sortedDst,
      removePool_ne_nil_iff sortedSrc sortedDst, fun entry member => removePool_labels sortedSrc sortedDst member⟩

/-- One std part over labels `0` to `2` and the wildcard `3`: three copies on `0` and one
on `2` available, one copy on `0` and one wildcard copy asked for. Nothing is to add,
and the copies beyond the wildcard copy are two to remove, from `0` and `2`. -/
theorem getLabelsToRecover_getRemovePool_agree_std :
    let std : SliceType := ⟨SliceType.kStandard, by decide⟩
    let calculator : ChunkCopiesCalculator (Fin 4) :=
      { available := ⟨[⟨std, [[(0, 3), (2, 1)]], rfl⟩], by decide⟩
        target := ⟨[⟨std, [[(0, 1), (3, 1)]], rfl⟩], by decide⟩
        targetRedundancyLevel := 0
        redundancyLevel := 0
        sliceRedundancyLevel := [] }
    let moves := countPartsToMove calculator.evalOperationCount std 0
    let src := calculator.available.partLabels std 0
    let dst := calculator.target.partLabels std 0
    (calculator.target.find std).isSome ∧ 0 < std.expectedParts ∧ calculator.available.LabelsSorted ∧
      calculator.target.LabelsSorted ∧ moves = (0, 2) ∧ calculator.getLabelsToRecover std 0 = [] ∧
      calculator.getRemovePool std 0 = [(0, 1), (2, 1)] ∧
      (((calculator.getLabelsToRecover std 0).countLabels : Int) = moves.1 ∧
        (calculator.getLabelsToRecover std 0).count ⊤ = max (dst.count ⊤ - surplusCopies src dst) 0 ∧
        (calculator.getRemovePool std 0 ≠ [] ↔ 0 < moves.2) ∧
        ∀ entry ∈ calculator.getRemovePool std 0,
          (Labels.explicit dst).lookup entry.1 = none ∨ (Labels.explicit dst).count entry.1 < src.count entry.1) := by
  intro std calculator moves src dst
  exact ⟨by decide, by decide, by decide, by decide, by decide, by decide, by decide,
    getLabelsToRecover_getRemovePool_agree calculator std 0 (by decide) (by decide) (by decide) (by decide)⟩

end ChunkCopiesCalculator

end SaunaFS
