import SaunaFS.Common.Goal

/-! `ChunkCopiesCalculator` (`src/common/chunk_copies_calculator.cc`): the redundancy
level of the available chunk parts and `canRemovePart`, the check the replication
engine makes before it deletes an unneeded part (`ChunkWorker::removeUnneededChunkPart`).

The redundancy level counts how many parts may disappear before chunk data is
lost: per slice, copies beyond the first for std and distinct parts beyond the
data parts for xor and ec; per chunk, the slices' levels folded as
`sum of max(level + 1, 0)`, minus one. The main result says that a removal that
`canRemovePart` allows keeps that level at one or more.

The members `slice_operation_count_` and `operation_count_` are left out: no
modelled function reads them.
-/

set_option autoImplicit false

namespace SaunaFS

/-- `ChunksAvailabilityState::State`. -/
inductive ChunksAvailabilityState where
  | kSafe
  | kEndangered
  | kLost
  deriving DecidableEq, Repr

variable {Label : Type}

/-- The calculator's members that the modelled functions read and write. -/
structure ChunkCopiesCalculator (Label : Type) where
  available : Goal Label
  target : Goal Label
  targetRedundancyLevel : Int
  redundancyLevel : Int
  /-- `slice_redundancy_level_`, a `flat_map` from slice type to level. -/
  sliceRedundancyLevel : List (SliceType × Int)

namespace ChunkCopiesCalculator

open SliceTraits

/-- `evalSliceRedundancyLevel`; a negative value means data of the slice is lost. -/
def evalSliceRedundancyLevel (slice : Slice Label) : Int :=
  let copies := (slice.parts.map Labels.countLabels).sum
  -- `type_count += count > 0`
  let typeCount := (slice.parts.map fun part => if 0 < Labels.countLabels part then (1 : Nat) else 0).sum
  if isStandard slice.type then (copies : Int) - 1
  else if isXor slice.type || isEC slice.type then
    (typeCount : Int) - getNumberOfDataParts slice.type
  else -1

/-- A slice's share of the chunk level: `std::max(extra_parts + 1, 0)`. -/
def sliceContribution (level : Int) : Int := max (level + 1) 0

/-! ## Slice levels -/

/-- A slice's level reads each part only through its total count. -/
theorem evalSliceRedundancyLevel_congr {first second : Slice Label}
    (sameType : first.type = second.type)
    (sameCounts : first.parts.map Labels.countLabels = second.parts.map Labels.countLabels) :
    evalSliceRedundancyLevel first = evalSliceRedundancyLevel second := by
  have sameIndicators :
      (first.parts.map fun part => if 0 < Labels.countLabels part then (1 : Nat) else 0) =
        second.parts.map fun part => if 0 < Labels.countLabels part then (1 : Nat) else 0 := by
    have mapped := congrArg (List.map fun count => if 0 < count then (1 : Nat) else 0) sameCounts
    simpa only [List.map_map, Function.comp_def] using mapped
  simp only [evalSliceRedundancyLevel, sameType, sameCounts, sameIndicators]

/-- One copy fewer in one part lowers a slice's level by at most one and never
raises it: the copies drop by one, the parts holding a copy by at most one. -/
theorem evalSliceRedundancyLevel_modifyPart {slice : Slice Label} {part : Nat}
    {labels : Labels Label} (present : slice.parts[part]? = some labels)
    (update : Labels Label → Labels Label)
    (lowers : Labels.countLabels (update labels) + 1 = Labels.countLabels labels) :
    evalSliceRedundancyLevel slice - 1 ≤ evalSliceRedundancyLevel (slice.modifyPart part update) ∧
      evalSliceRedundancyLevel (slice.modifyPart part update) ≤ evalSliceRedundancyLevel slice := by
  have copies := KeyedList.sum_map_modify update Labels.countLabels present
  have held := KeyedList.sum_map_modify update
    (fun part => if 0 < Labels.countLabels part then (1 : Nat) else 0) present
  have wasHeld : 0 < Labels.countLabels labels := by omega
  simp only [wasHeld, if_true] at held
  have heldBound : (if 0 < Labels.countLabels (update labels) then (1 : Nat) else 0) ≤ 1 := by
    split_ifs <;> omega
  simp only [evalSliceRedundancyLevel, Slice.modifyPart_type, Slice.modifyPart_parts]
  by_cases standard : isStandard slice.type
  · simp only [standard, if_true]
    omega
  · by_cases coded : (isXor slice.type || isEC slice.type)
    · simp only [standard, coded, Bool.false_eq_true, ↓reduceIte]
      omega
    · simp only [standard, coded, Bool.false_eq_true, ↓reduceIte]
      omega

/-- `flat_map::operator[]` followed by an assignment: overwrite the entry of
`type`, or insert one at its place in the type order. -/
def assignLevel : List (SliceType × Int) → SliceType → Int → List (SliceType × Int)
  | [], type, level => [(type, level)]
  | (key, old) :: rest, type, level =>
    if key = type then (type, level) :: rest
    else if type.value < key.value then (type, level) :: (key, old) :: rest
    else (key, old) :: assignLevel rest type level

/-- `evalRedundancyLevel()`: refresh the per-slice levels and the chunk level. -/
def evalRedundancyLevel (calculator : ChunkCopiesCalculator Label) : ChunkCopiesCalculator Label :=
  let result := calculator.available.slices.foldl
    (fun (acc : List (SliceType × Int) × Int) slice =>
      let extraParts := evalSliceRedundancyLevel slice
      (assignLevel acc.1 slice.type extraParts, acc.2 + sliceContribution extraParts))
    (calculator.sliceRedundancyLevel, 0)
  { calculator with sliceRedundancyLevel := result.1, redundancyLevel := result.2 - 1 }

/-- The overload `evalRedundancyLevel(const Goal &)`, which only returns the level. -/
def evalGoalRedundancyLevel (goal : Goal Label) : Int :=
  goal.slices.foldl (fun level slice => level + sliceContribution (evalSliceRedundancyLevel slice)) 0
    - 1

/-- `getState`: an empty target is always safe. -/
def getState (calculator : ChunkCopiesCalculator Label) : ChunksAvailabilityState :=
  if calculator.target.size = 0 || 0 < calculator.redundancyLevel then .kSafe
  else if calculator.redundancyLevel = 0 then .kEndangered
  else .kLost

/-- The state of one slice in `removePartBasicTest`'s loop. -/
def sliceState (level : Int) : ChunksAvailabilityState :=
  if 0 < level then .kSafe else if level = 0 then .kEndangered else .kLost

/-- `state_count[state]` after the loop over `slice_redundancy_level_`. -/
def stateCount (levels : List (SliceType × Int)) (state : ChunksAvailabilityState) : Nat :=
  levels.countP fun entry => sliceState entry.2 = state

/-- `slice_redundancy_level_.find(type)`. -/
def findLevel (levels : List (SliceType × Int)) (type : SliceType) : Option Int :=
  (levels.find? fun entry => entry.1 = type).map Prod.snd

/-! ## Chunk level and slice states -/

theorem evalGoalRedundancyLevel_eq (goal : Goal Label) :
    evalGoalRedundancyLevel goal =
      (goal.slices.map fun slice => sliceContribution (evalSliceRedundancyLevel slice)).sum - 1 := by
  rw [evalGoalRedundancyLevel, KeyedList.foldl_add_eq_sum, zero_add]

/-- The chunk level `evalRedundancyLevel()` stores is the level of `available`,
whatever the per-slice map held before. -/
theorem evalRedundancyLevel_redundancyLevel (calculator : ChunkCopiesCalculator Label) :
    calculator.evalRedundancyLevel.redundancyLevel = evalGoalRedundancyLevel calculator.available := by
  have total : ∀ (slices : List (Slice Label)) (levels : List (SliceType × Int)) (start : Int),
      (slices.foldl (fun (acc : List (SliceType × Int) × Int) slice =>
        (assignLevel acc.1 slice.type (evalSliceRedundancyLevel slice),
          acc.2 + sliceContribution (evalSliceRedundancyLevel slice))) (levels, start)).2 =
        start + (slices.map fun slice => sliceContribution (evalSliceRedundancyLevel slice)).sum := by
    intro slices
    induction slices with
    | nil => simp
    | cons slice rest ih =>
      intro levels start
      rw [List.foldl_cons, ih, List.map_cons, List.sum_cons, add_assoc]
  simp only [evalRedundancyLevel, total, evalGoalRedundancyLevel_eq, zero_add]

theorem getState_of_pos {calculator : ChunkCopiesCalculator Label}
    (positive : 0 < calculator.redundancyLevel) : calculator.getState = .kSafe := by
  simp [getState, positive]

/-- A slice's weight in `can_remove_count = 2 * safe + endangered`. -/
def removeWeight (level : Int) : Int := if 0 < level then 2 else if level = 0 then 1 else 0

theorem removeWeight_nonneg (level : Int) : 0 ≤ removeWeight level := by
  unfold removeWeight
  split_ifs <;> omega

/-- A slice adds at least its weight to the chunk level. -/
theorem removeWeight_le (level : Int) : removeWeight level ≤ sliceContribution level := by
  unfold removeWeight sliceContribution
  split_ifs <;> omega

/-- Only lost slices weigh nothing, and they add nothing to the chunk level. -/
theorem sliceContribution_of_removeWeight {level : Int} (light : removeWeight level = 0) :
    sliceContribution level = 0 := by
  unfold removeWeight at light
  unfold sliceContribution
  split_ifs at light <;> omega

theorem canRemoveCount_eq (levels : List (SliceType × Int)) :
    ((2 * stateCount levels .kSafe + stateCount levels .kEndangered : Nat) : Int) =
      (levels.map fun entry => removeWeight entry.2).sum := by
  induction levels with
  | nil => simp [stateCount]
  | cons entry rest ih =>
    simp only [stateCount, List.countP_cons] at ih ⊢
    rw [List.map_cons, List.sum_cons, ← ih]
    unfold sliceState removeWeight
    split_ifs <;> simp_all <;> omega

/-- The cached levels are the ones `evalRedundancyLevel()` computes from `available`. -/
structure Evaluated (calculator : ChunkCopiesCalculator Label) : Prop where
  redundancy : calculator.redundancyLevel = evalGoalRedundancyLevel calculator.available
  levels : calculator.sliceRedundancyLevel.Perm
    (calculator.available.slices.map fun slice => (slice.type, evalSliceRedundancyLevel slice))

namespace Evaluated
variable {calculator : ChunkCopiesCalculator Label}

theorem keys_nodup (evaluated : calculator.Evaluated) :
    (calculator.sliceRedundancyLevel.map Prod.fst).Nodup := by
  rw [(evaluated.levels.map Prod.fst).nodup_iff, List.map_map]
  exact calculator.available.types_nodup

theorem findLevel (evaluated : calculator.Evaluated) {slice : Slice Label}
    (member : slice ∈ calculator.available.slices) :
    findLevel calculator.sliceRedundancyLevel slice.type = some (evalSliceRedundancyLevel slice) := by
  have entry : (slice.type, evalSliceRedundancyLevel slice) ∈ calculator.sliceRedundancyLevel :=
    evaluated.levels.mem_iff.mpr (List.mem_map_of_mem member)
  have found := KeyedList.find?_key_of_mem Prod.fst evaluated.keys_nodup entry
  simp only [ChunkCopiesCalculator.findLevel, found, Option.map_some]

/-- `can_remove_count` read off the slices of `available`. -/
theorem canRemoveCount (evaluated : calculator.Evaluated) :
    ((2 * stateCount calculator.sliceRedundancyLevel .kSafe +
        stateCount calculator.sliceRedundancyLevel .kEndangered : Nat) : Int) =
      (calculator.available.slices.map fun slice =>
        removeWeight (evalSliceRedundancyLevel slice)).sum := by
  rw [canRemoveCount_eq, (evaluated.levels.map _).sum_eq, List.map_map]
  rfl

/-- A slice of `available` in state `state` is counted in `state_count[state]`. -/
theorem stateCount_pos (evaluated : calculator.Evaluated) {slice : Slice Label}
    (member : slice ∈ calculator.available.slices) :
    0 < stateCount calculator.sliceRedundancyLevel (sliceState (evalSliceRedundancyLevel slice)) := by
  have entry : (slice.type, evalSliceRedundancyLevel slice) ∈ calculator.sliceRedundancyLevel :=
    evaluated.levels.mem_iff.mpr (List.mem_map_of_mem member)
  exact List.countP_pos_iff.mpr ⟨_, entry, by simp⟩

end Evaluated

section
variable [DecidableEq Label]

/-- `removePart`: one copy fewer of `part` of the slice of type `sliceType` on
`label`; the label's entry goes once its count reaches zero. -/
def removePart (calculator : ChunkCopiesCalculator Label) (sliceType : SliceType) (part : Nat)
    (label : Label) : ChunkCopiesCalculator Label :=
  match calculator.available.find sliceType with
  | none => calculator
  | some _ =>
    { calculator with
      available := calculator.available.modifySlice sliceType
        (fun slice => slice.modifyPart part fun labels => labels.removeOne label)
        (fun _ => rfl) }

/-- `removePartBasicTest`: `some result` when the counts of safe, endangered and
lost slices decide the question, `none` when the slice itself must be checked. -/
def removePartBasicTest (calculator : ChunkCopiesCalculator Label) (sliceType : SliceType) :
    Option Bool :=
  if calculator.target.size = 0 then some true
  else if calculator.redundancyLevel < 1 || (calculator.available.find sliceType).isNone then some false
  else
    let safe := stateCount calculator.sliceRedundancyLevel .kSafe
    let endangered := stateCount calculator.sliceRedundancyLevel .kEndangered
    let canRemoveCount := 2 * safe + endangered
    if 2 < canRemoveCount then some true
    else
      match findLevel calculator.sliceRedundancyLevel sliceType with
      -- the source asserts that the slice has an entry
      | none => some false
      | some level =>
        if level < 0 then some true
        else if safe ≠ 1 then some false
        else none

/-- `canRemovePart`: after the basic test, decide on a copy of the slice with one
copy of `part` on `label` fewer. -/
def canRemovePart (calculator : ChunkCopiesCalculator Label) (sliceType : SliceType) (part : Nat)
    (label : Label) : Bool :=
  match calculator.removePartBasicTest sliceType with
  | some result => result
  | none =>
    match calculator.available.find sliceType with
    -- `available_[slice_type]` would throw; the basic test has ruled this out
    | none => false
    | some available =>
      let slice := available.modifyPart part fun labels => labels.decrement label
      match calculator.target.find sliceType with
      | some targetSlice =>
        if targetSlice.getExpectedCopies = 1 && 1 ≤ slice.getExpectedCopies then true
        else 0 < evalSliceRedundancyLevel slice
      | none => 0 < evalSliceRedundancyLevel slice


/-- `available_` holds a copy of `part` of the slice of type `sliceType` on `label`. -/
def HoldsCopy (goal : Goal Label) (sliceType : SliceType) (part : Nat) (label : Label) : Prop :=
  ∃ slice labels count, goal.find sliceType = some slice ∧ slice.parts[part]? = some labels ∧
    labels.find label = some count ∧ 0 < count

/-- What `removePart` does to a slice it finds. -/
def removedSlice (slice : Slice Label) (part : Nat) (label : Label) : Slice Label :=
  slice.modifyPart part fun labels => labels.removeOne label

theorem removePart_slices {calculator : ChunkCopiesCalculator Label} {slice : Slice Label}
    (found : calculator.available.find slice.type = some slice) (part : Nat) (label : Label) :
    (calculator.removePart slice.type part label).available.slices =
      KeyedList.replace Slice.type slice.type (fun other => removedSlice other part label)
        calculator.available.slices := by
  simp only [removePart, found]
  rfl

/-- The slice `canRemovePart` judges has the level of the one `removePart` leaves. -/
theorem evalSliceRedundancyLevel_decrement {slice : Slice Label} {part : Nat} {label : Label}
    {labels : Labels Label} {count : UInt16} (present : slice.parts[part]? = some labels)
    (found : labels.find label = some count) (positive : 0 < count) :
    evalSliceRedundancyLevel (slice.modifyPart part fun labels => labels.decrement label) =
      evalSliceRedundancyLevel (removedSlice slice part label) := by
  apply evalSliceRedundancyLevel_congr (by simp [removedSlice])
  simp only [removedSlice, Slice.modifyPart_parts]
  apply KeyedList.map_modify_congr _ _ _ present
  have decremented := Labels.countLabels_decrement found positive
  have removed := Labels.countLabels_removeOne found positive
  omega


/-- A removal that `canRemovePart` allows leaves the chunk safe: the chunk level
recomputed after `removePart` is at least one. The basic test decides from the
weights `2 * safe + endangered`; in the one case it leaves open, every slice but
the one losing a copy is lost, so the chunk level is that slice's alone. -/
theorem canRemovePart_keeps_chunk_safe (calculator : ChunkCopiesCalculator Label)
    (sliceType : SliceType) (part : Nat) (label : Label) (evaluated : calculator.Evaluated)
    (allowed : calculator.canRemovePart sliceType part label = true)
    (targeted : calculator.target.size ≠ 0)
    (notSingle : ∀ targetSlice, calculator.target.find sliceType = some targetSlice →
      targetSlice.getExpectedCopies ≠ 1)
    (holds : HoldsCopy calculator.available sliceType part label) :
    1 ≤ (calculator.removePart sliceType part label).evalRedundancyLevel.redundancyLevel ∧
      (calculator.removePart sliceType part label).evalRedundancyLevel.getState = .kSafe := by
  obtain ⟨slice, labels, count, found, present, labelFound, positive⟩ := holds
  obtain ⟨member, rfl⟩ := calculator.available.mem_of_find found
  have bounds := evalSliceRedundancyLevel_modifyPart present (fun labels => labels.removeOne label)
    (Labels.countLabels_removeOne labelFound positive)
  -- the chunk total after the removal differs from the one before in this slice only
  have shift := KeyedList.sum_map_replace Slice.type (fun other => removedSlice other part label)
    (fun other => sliceContribution (evalSliceRedundancyLevel other))
    calculator.available.types_nodup member
  rw [← removePart_slices found] at shift
  have after := evalRedundancyLevel_redundancyLevel (calculator.removePart slice.type part label)
  rw [evalGoalRedundancyLevel_eq] at after
  have before := evaluated.redundancy
  rw [evalGoalRedundancyLevel_eq] at before
  suffices two : 2 ≤ ((calculator.removePart slice.type part label).available.slices.map
      fun other => sliceContribution (evalSliceRedundancyLevel other)).sum by
    have safe : 1 ≤ (calculator.removePart slice.type part label).evalRedundancyLevel.redundancyLevel := by
      rw [after]
      omega
    exact ⟨safe, getState_of_pos (by omega)⟩
  have weights := evaluated.canRemoveCount
  have lowerBound : (calculator.available.slices.map fun other =>
      removeWeight (evalSliceRedundancyLevel other)).sum ≤
      (calculator.available.slices.map fun other =>
        sliceContribution (evalSliceRedundancyLevel other)).sum :=
    List.sum_le_sum fun other _ => removeWeight_le _
  have contributionStep : sliceContribution (evalSliceRedundancyLevel slice) ≤
      sliceContribution (evalSliceRedundancyLevel (removedSlice slice part label)) + 1 := by
    unfold sliceContribution removedSlice
    omega
  unfold canRemovePart at allowed
  unfold removePartBasicTest at allowed
  rw [evaluated.findLevel member] at allowed
  simp only [targeted, found, Option.isNone_some, Bool.or_false, decide_eq_true_eq] at allowed
  split_ifs at allowed with emptyTarget lowLevel heavy lost single
  · exact emptyTarget.elim
  · -- more than one safe slice, or enough endangered ones: one copy fewer still leaves two
    omega
  · -- the slice is lost already and stays lost
    have stillLost : evalSliceRedundancyLevel (removedSlice slice part label) < 0 := by
      unfold removedSlice
      omega
    have unchanged : sliceContribution (evalSliceRedundancyLevel slice) =
        sliceContribution (evalSliceRedundancyLevel (removedSlice slice part label)) := by
      unfold sliceContribution
      omega
    omega
  · -- the one safe slice loses a copy; every other slice is lost
    have noEndangered : stateCount calculator.sliceRedundancyLevel .kEndangered = 0 := by omega
    have sliceSafe : 0 < evalSliceRedundancyLevel slice := by
      by_contra notSafe
      have counted := evaluated.stateCount_pos member
      have endangered : sliceState (evalSliceRedundancyLevel slice) = .kEndangered := by
        simp only [sliceState]
        split_ifs <;> first | rfl | omega
      rw [endangered] at counted
      omega
    have onlyWeight : (calculator.available.slices.map fun other =>
        removeWeight (evalSliceRedundancyLevel other)).sum =
        removeWeight (evalSliceRedundancyLevel slice) := by
      have heaviest : removeWeight (evalSliceRedundancyLevel slice) = 2 := by
        simp [removeWeight, sliceSafe]
      omega
    have onlyValue := KeyedList.sum_map_eq_of_weight
      (fun other => removeWeight (evalSliceRedundancyLevel other))
      (fun other => sliceContribution (evalSliceRedundancyLevel other)) member
      (fun _ _ => removeWeight_nonneg _) (fun _ _ light => sliceContribution_of_removeWeight light)
      onlyWeight
    -- the copy `canRemovePart` judged is the slice `removePart` leaves
    have judged : 0 < evalSliceRedundancyLevel (removedSlice slice part label) := by
      rw [← evalSliceRedundancyLevel_decrement present labelFound positive]
      simp only at allowed
      cases targetFound : calculator.target.find slice.type with
      | none => simpa [targetFound] using allowed
      | some targetSlice =>
        have copies := notSingle targetSlice targetFound
        simpa [targetFound, copies] using allowed
    have remaining : sliceContribution (evalSliceRedundancyLevel (removedSlice slice part label)) =
        evalSliceRedundancyLevel (removedSlice slice part label) + 1 := by
      unfold sliceContribution
      omega
    omega

/-- Two copies of a std chunk on `A` and one on `B` against a target of two: the
copy on `B` may go, and the chunk stays safe. -/
theorem canRemovePart_keeps_chunk_safe_std :
    let std : SliceType := ⟨SliceType.kStandard, by decide⟩
    let calculator : ChunkCopiesCalculator String :=
      { available := ⟨[⟨std, [[("A", 2), ("B", 1)]], rfl⟩], by decide⟩
        target := ⟨[⟨std, [[("A", 2)]], rfl⟩], by decide⟩
        targetRedundancyLevel := 1
        redundancyLevel := 2
        sliceRedundancyLevel := [(std, 2)] }
    calculator.Evaluated ∧ calculator.canRemovePart std 0 "B" = true ∧
      1 ≤ (calculator.removePart std 0 "B").evalRedundancyLevel.redundancyLevel ∧
      (calculator.removePart std 0 "B").evalRedundancyLevel.getState = .kSafe := by
  intro std calculator
  have evaluated : calculator.Evaluated := ⟨by decide, by decide⟩
  have allowed : calculator.canRemovePart std 0 "B" = true := by decide
  have notSingle : ∀ targetSlice, calculator.target.find std = some targetSlice →
      targetSlice.getExpectedCopies ≠ 1 := by
    intro targetSlice found
    have same : calculator.target.find std = some ⟨std, [[("A", 2)]], rfl⟩ := rfl
    rw [same, Option.some.injEq] at found
    subst found
    decide
  exact ⟨evaluated, allowed, canRemovePart_keeps_chunk_safe calculator std 0 "B" evaluated allowed
    (by decide) notSingle ⟨⟨std, [[("A", 2), ("B", 1)]], rfl⟩, [("A", 2), ("B", 1)], 1, rfl, rfl,
      by decide, by decide⟩⟩

end

end ChunkCopiesCalculator

end SaunaFS
