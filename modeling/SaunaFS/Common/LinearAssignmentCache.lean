import SaunaFS.Common.LinearAssignment
import SaunaFS.Common.OperationCount
import SaunaFS.Lib.HashedMemo

/-! The linear-assignment cache (`src/common/linear_assignment_cache.h`) and
`ChunkCopiesCalculator::optimize` (`src/common/chunk_copies_calculator.cc`), which
reorders the parts of each target slice in the order the auction finds closest to
the available parts, asking the cache first.

The cache is an `unordered_map` from a 64-bit polynomial hash of the (target,
source) pair to one `OptimizerInputOutput`. Its `operator[]` default-constructs a
missing entry, so here the map is a total function whose entries all start as the
default one: two tape slices without labels and no assignment. An entry answers
only for the very pair it holds, in type and in every part's labels. Media labels
enter the hash through their handle, `handle`.

Over any sequence of calls sharing one cache from empty, every call leaves its
calculator as the call without a cache does (`optimize_cache_transparent`): the
cache is a faithful memo table of the auction (`HashedMemo.Faithful`), since the
default entry holds one-part slices, which `optimize` never asks about, and what
`optimize` stores is what the auction gave for the pair before its parts are
reordered. The hashes never leave `int64`.

`evalOperationCount` is left out with the members it writes. The auction runs on
fuel (`LinearAssignment.auctionOptimization`); a call that runs out fails as a
whole, with the cache or without it.
-/

set_option autoImplicit false

namespace SaunaFS

variable {Label : Type}

/-- `Goal::kMaxExpectedCopies`. -/
def Goal.kMaxExpectedCopies : UInt32 := 128

namespace Slice

/-- `Slice::size`: the part count of the type. -/
def size (slice : Slice Label) : Nat := slice.type.expectedParts

/-- `explicit Slice(Type)`: every part of the type, without labels. -/
def ofType (type : SliceType) : Slice Label := ⟨type, List.replicate type.expectedParts [], List.length_replicate⟩

theorem eq_of_type_parts {a b : Slice Label} (type : a.type = b.type) (parts : a.parts = b.parts) : a = b := by
  obtain ⟨typeA, partsA, _⟩ := a
  obtain ⟨typeB, partsB, _⟩ := b
  subst type parts
  rfl

theorem length_parts_eq {a b : Slice Label} (type : a.type = b.type) : a.parts.length = b.parts.length := by
  rw [a.parts_length, b.parts_length, type]

instance [DecidableEq Label] : DecidableEq (Slice Label) := fun a b =>
  decidable_of_iff (a.type = b.type ∧ a.parts = b.parts)
    ⟨fun same => eq_of_type_parts same.1 same.2, fun same => by rw [same]; exact ⟨rfl, rfl⟩⟩

end Slice

namespace LinearAssignmentCache

/-- `OptimizerInputOutput`: one input of the auction and the assignment it gave. -/
structure OptimizerInputOutput (Label : Type) where
  targetSlice : Slice Label
  sourceSlice : Slice Label
  assignment : List Int

/-- `Goal::Slice::Type(1)`, the type of the slices of the default entry. -/
def tapeType : SliceType := ⟨SliceType.kTape, by decide⟩

namespace OptimizerInputOutput

/-- The default constructor. -/
def init : OptimizerInputOutput Label := ⟨Slice.ofType tapeType, Slice.ofType tapeType, []⟩

variable [DecidableEq Label]

/-- `partsMatch`: the same labels with the same counts. -/
def partsMatch (part1 part2 : Labels Label) : Bool := part1.length == part2.length && part1 == part2

/-- The loop of `checkMatchAndGetResult` over the parts of two slices of one type. -/
def slicePartsMatch (slice stored : Slice Label) : Bool :=
  (slice.parts.zip stored.parts).all fun parts => partsMatch parts.1 parts.2

def checkMatchAndGetResult (entry : OptimizerInputOutput Label) (targetSlice sourceSlice : Slice Label) :
    Option (List Int) :=
  if targetSlice.type ≠ entry.targetSlice.type ∨ sourceSlice.type ≠ entry.sourceSlice.type then none
  -- the types agree, and with them the sizes
  else if slicePartsMatch targetSlice entry.targetSlice && slicePartsMatch sourceSlice entry.sourceSlice then
    some entry.assignment
  else none

/-- The entry as an entry of a memo table over (target, source) pairs. -/
def toEntry (entry : OptimizerInputOutput Label) : HashedMemo.Entry (Slice Label × Slice Label) (List Int) :=
  ⟨(entry.targetSlice, entry.sourceSlice), entry.assignment⟩

theorem partsMatch_iff {part1 part2 : Labels Label} : partsMatch part1 part2 = true ↔ part1 = part2 := by
  unfold partsMatch
  constructor
  · intro both
    simp only [Bool.and_eq_true, beq_iff_eq] at both
    exact both.2
  · intro same
    simp [same]

theorem all_zip_partsMatch {parts stored : List (Labels Label)} (sameLength : parts.length = stored.length) :
    (parts.zip stored).all (fun pair => partsMatch pair.1 pair.2) = true ↔ parts = stored := by
  induction parts generalizing stored with
  | nil => cases stored <;> simp_all
  | cons part rest ih =>
    cases stored with
    | nil => simp at sameLength
    | cons storedPart storedRest =>
      simp only [List.zip_cons_cons, List.all_cons, Bool.and_eq_true, partsMatch_iff, List.cons.injEq]
      rw [ih (by simpa using sameLength)]

theorem slicePartsMatch_iff {slice stored : Slice Label} (type : slice.type = stored.type) :
    slicePartsMatch slice stored = true ↔ slice = stored := by
  rw [slicePartsMatch, all_zip_partsMatch (Slice.length_parts_eq type)]
  exact ⟨Slice.eq_of_type_parts type, fun same => by rw [same]⟩

/-- An entry answers exactly for the pair it holds. -/
theorem checkMatchAndGetResult_eq (entry : OptimizerInputOutput Label) (targetSlice sourceSlice : Slice Label) :
    entry.checkMatchAndGetResult targetSlice sourceSlice = entry.toEntry.find (targetSlice, sourceSlice) := by
  unfold checkMatchAndGetResult HashedMemo.Entry.find toEntry
  dsimp only
  by_cases types : targetSlice.type = entry.targetSlice.type ∧ sourceSlice.type = entry.sourceSlice.type
  · have hit : (slicePartsMatch targetSlice entry.targetSlice && slicePartsMatch sourceSlice entry.sourceSlice) = true ↔
        (entry.targetSlice, entry.sourceSlice) = (targetSlice, sourceSlice) := by
      rw [Bool.and_eq_true, slicePartsMatch_iff types.1, slicePartsMatch_iff types.2, Prod.mk.injEq, eq_comm,
        @eq_comm _ sourceSlice]
    rw [if_neg (not_or.mpr ⟨not_not.mpr types.1, not_not.mpr types.2⟩)]
    by_cases same : (entry.targetSlice, entry.sourceSlice) = (targetSlice, sourceSlice)
    · rw [if_pos (hit.mpr same), if_pos same]
    · rw [if_neg (mt hit.mp same), if_neg same]
  · -- a type differs, so the pair does
    have differs : (entry.targetSlice, entry.sourceSlice) ≠ (targetSlice, sourceSlice) := by
      intro same
      simp only [Prod.mk.injEq] at same
      exact types ⟨by rw [same.1], by rw [same.2]⟩
    rw [if_pos (by tauto), if_neg differs]

end OptimizerInputOutput

/-! ## The hashes -/

def kBasePart : Int64 := 50000017
def kModPart : Int64 := 100000007
def kBaseSlice : Int64 := 500000009
def kModSlice : Int64 := 1000000007
def kInitialStartingHash : Int64 := 1

@[simp] theorem toInt_kBaseSlice : kBaseSlice.toInt = 500000009 := by decide
@[simp] theorem toInt_kModSlice : kModSlice.toInt = 1000000007 := by decide
@[simp] theorem toInt_kInitialStartingHash : kInitialStartingHash.toInt = 1 := by decide

section Hash

variable (handle : Label → UInt16)

/-- `getLabelValue`: the label's handle, widened to `int64`. -/
def getLabelValue (label : Label) : Int64 := Int64.ofNat (handle label).toNat

/-- `label_hash`, the coefficient of one label of a part. -/
def labelHash (entry : Label × UInt16) : Int64 :=
  (getLabelValue handle entry.1 * Int64.ofNat Goal.kMaxExpectedCopies.toNat + Int64.ofNat entry.2.toNat) % kBasePart

def hashPart (part : Labels Label) : Int64 :=
  part.foldl (fun hash entry => (hash * kBasePart + labelHash handle entry) % kModPart) 1

def hashSlice (startingHash : Int64) (slice : Slice Label) : Int64 :=
  slice.parts.foldl (fun hash part => (hash * kBaseSlice + hashPart handle part) % kModSlice) startingHash

/-- `hashSlicePair`: the target slice, then the source slice. -/
def hashSlicePair (targetSlice sourceSlice : Slice Label) : Int64 :=
  hashSlice handle (hashSlice handle kInitialStartingHash targetSlice) sourceSlice

/-- The hash of a part computed over the integers. -/
def partPolynomial (part : Labels Label) : Int :=
  (part.map fun entry => ((handle entry.1).toNat * 128 + entry.2.toNat : Int) % 50000017).foldl
    (HashedMemo.polyStepInt 50000017 100000007) 1

/-- The hash of a slice computed over the integers. -/
def slicePolynomial (start : Int) (slice : Slice Label) : Int :=
  (slice.parts.map (partPolynomial handle)).foldl (HashedMemo.polyStepInt 500000009 1000000007) start

def slicePairPolynomial (targetSlice sourceSlice : Slice Label) : Int :=
  slicePolynomial handle (slicePolynomial handle 1 targetSlice) sourceSlice

theorem fits_part : HashedMemo.Fits kBasePart kModPart 50000016 := ⟨by decide, by decide, by decide⟩

theorem fits_slice : HashedMemo.Fits kBaseSlice kModSlice 100000006 := ⟨by decide, by decide, by decide⟩

theorem toInt_labelHash (entry : Label × UInt16) :
    (labelHash handle entry).toInt = ((handle entry.1).toNat * 128 + entry.2.toNat : Int) % 50000017 := by
  have label : (getLabelValue handle entry.1).toInt = (handle entry.1).toNat :=
    Int64.toInt_ofNat_of_lt (by have := (handle entry.1).toNat_lt; omega)
  have copies : (Int64.ofNat entry.2.toNat).toInt = entry.2.toNat :=
    Int64.toInt_ofNat_of_lt (by have := entry.2.toNat_lt; omega)
  have bound : (handle entry.1).toNat < 65536 := (handle entry.1).toNat_lt
  have copiesBound : entry.2.toNat < 65536 := entry.2.toNat_lt
  -- the handle times 128 plus the count stays far below `2 ^ 63`
  have product : (getLabelValue handle entry.1 * Int64.ofNat Goal.kMaxExpectedCopies.toNat).toInt =
      (handle entry.1).toNat * 128 := by
    rw [Int64.toInt_mul, label, show (Int64.ofNat Goal.kMaxExpectedCopies.toNat).toInt = 128 by decide,
      HashedMemo.toInt_of_nonneg_of_lt (by omega) (by omega)]
  rw [labelHash, Int64.toInt_mod, Int64.toInt_add, product, copies,
    HashedMemo.toInt_of_nonneg_of_lt (by omega) (by omega), Int.tmod_eq_emod_of_nonneg (by omega)]
  rfl

theorem labelHash_range (entry : Label × UInt16) :
    0 ≤ (labelHash handle entry).toInt ∧ (labelHash handle entry).toInt ≤ 50000016 := by
  rw [toInt_labelHash]
  have := Int.emod_lt_of_pos ((handle entry.1).toNat * 128 + entry.2.toNat : Int) (by decide : (0 : Int) < 50000017)
  exact ⟨Int.emod_nonneg _ (by decide), by omega⟩

theorem toInt_hashPart (part : Labels Label) : (hashPart handle part).toInt = partPolynomial handle part := by
  have asFold : hashPart handle part = (part.map (labelHash handle)).foldl (HashedMemo.polyStep kBasePart kModPart) 1 := by
    rw [hashPart, List.foldl_map]
    rfl
  have coefficients : ∀ c ∈ part.map (labelHash handle), 0 ≤ c.toInt ∧ c.toInt ≤ 50000016 := by
    intro c member
    obtain ⟨entry, _, rfl⟩ := List.mem_map.mp member
    exact labelHash_range handle entry
  rw [asFold, HashedMemo.toInt_foldl_polyStep fits_part _ (by decide) coefficients, List.map_map, partPolynomial]
  have exact : Int64.toInt ∘ labelHash handle = fun entry => ((handle entry.1).toNat * 128 + entry.2.toNat : Int) % 50000017 :=
    funext (toInt_labelHash handle)
  rw [exact]
  rfl

theorem hashPart_range (part : Labels Label) : 0 ≤ (hashPart handle part).toInt ∧ (hashPart handle part).toInt ≤ 100000006 := by
  rw [toInt_hashPart]
  have := HashedMemo.foldl_polyStepInt_range 50000017 (by decide : (0 : Int) < 100000007)
    (part.map fun entry => ((handle entry.1).toNat * 128 + entry.2.toNat : Int) % 50000017) 1 (by decide)
  unfold partPolynomial
  omega

theorem slicePolynomial_range {start : Int} (startRange : 0 ≤ start ∧ start < 1000000007) (slice : Slice Label) :
    0 ≤ slicePolynomial handle start slice ∧ slicePolynomial handle start slice < 1000000007 :=
  HashedMemo.foldl_polyStepInt_range 500000009 (by decide) _ start startRange

theorem toInt_hashSlice {start : Int64} (startRange : 0 ≤ start.toInt ∧ start.toInt < 1000000007) (slice : Slice Label) :
    (hashSlice handle start slice).toInt = slicePolynomial handle start.toInt slice := by
  have asFold : hashSlice handle start slice =
      (slice.parts.map (hashPart handle)).foldl (HashedMemo.polyStep kBaseSlice kModSlice) start := by
    rw [hashSlice, List.foldl_map]
    rfl
  have coefficients : ∀ c ∈ slice.parts.map (hashPart handle), 0 ≤ c.toInt ∧ c.toInt ≤ 100000006 := by
    intro c member
    obtain ⟨part, _, rfl⟩ := List.mem_map.mp member
    exact hashPart_range handle part
  rw [asFold, HashedMemo.toInt_foldl_polyStep fits_slice _ (by rw [toInt_kModSlice]; exact startRange) coefficients,
    List.map_map, slicePolynomial, toInt_kBaseSlice, toInt_kModSlice]
  have exact : Int64.toInt ∘ hashPart handle = partPolynomial handle := funext (toInt_hashPart handle)
  rw [exact]

/-- The hash of a pair never leaves `int64`: it is the hash computed over the integers. -/
theorem toInt_hashSlicePair (targetSlice sourceSlice : Slice Label) :
    (hashSlicePair handle targetSlice sourceSlice).toInt = slicePairPolynomial handle targetSlice sourceSlice := by
  have target : (hashSlice handle kInitialStartingHash targetSlice).toInt = slicePolynomial handle 1 targetSlice := by
    rw [toInt_hashSlice handle (by decide) targetSlice, toInt_kInitialStartingHash]
  have targetRange := slicePolynomial_range handle (by decide : (0 : Int) ≤ 1 ∧ (1 : Int) < 1000000007) targetSlice
  rw [hashSlicePair, toInt_hashSlice handle (by rw [target]; exact targetRange) sourceSlice, target, slicePairPolynomial]

end Hash

end LinearAssignmentCache

/-- `LinearAssignmentCache`: `cachedData_`, the entry at every hash. -/
structure LinearAssignmentCache (Label : Type) where
  cachedData : Int64 → LinearAssignmentCache.OptimizerInputOutput Label

namespace LinearAssignmentCache

/-- A new cache: the default entry at every hash. -/
def empty : LinearAssignmentCache Label := ⟨fun _ => .init⟩

/-- The cache as a memo table of (target, source) pairs. -/
def table (cache : LinearAssignmentCache Label) : Int64 → HashedMemo.Entry (Slice Label × Slice Label) (List Int) :=
  fun hash => (cache.cachedData hash).toEntry

variable [DecidableEq Label] (handle : Label → UInt16)

def checkMatchAndGetResult (cache : LinearAssignmentCache Label) (targetSlice sourceSlice : Slice Label) :
    Option (List Int) :=
  (cache.cachedData (hashSlicePair handle targetSlice sourceSlice)).checkMatchAndGetResult targetSlice sourceSlice

def store (cache : LinearAssignmentCache Label) (targetSlice sourceSlice : Slice Label) (assignment : List Int) :
    LinearAssignmentCache Label :=
  ⟨Function.update cache.cachedData (hashSlicePair handle targetSlice sourceSlice) ⟨targetSlice, sourceSlice, assignment⟩⟩

/-- The hash of a pair, as the memo table takes it. -/
def pairHash (pair : Slice Label × Slice Label) : Int64 := hashSlicePair handle pair.1 pair.2

theorem checkMatchAndGetResult_eq_lookup (cache : LinearAssignmentCache Label) (targetSlice sourceSlice : Slice Label) :
    cache.checkMatchAndGetResult handle targetSlice sourceSlice =
      HashedMemo.lookup (pairHash handle) cache.table (targetSlice, sourceSlice) :=
  OptimizerInputOutput.checkMatchAndGetResult_eq _ targetSlice sourceSlice

omit [DecidableEq Label] in
theorem table_store (cache : LinearAssignmentCache Label) (targetSlice sourceSlice : Slice Label) (assignment : List Int) :
    (cache.store handle targetSlice sourceSlice assignment).table =
      HashedMemo.store (pairHash handle) cache.table (targetSlice, sourceSlice) assignment := by
  funext hash
  by_cases here : hash = hashSlicePair handle targetSlice sourceSlice
  · subst here
    simp [table, store, HashedMemo.store, pairHash, OptimizerInputOutput.toEntry]
  · simp [table, store, HashedMemo.store, pairHash, Function.update_of_ne here]

end LinearAssignmentCache

namespace ChunkCopiesCalculator

open LinearAssignmentCache OptimizerInputOutput

variable [LinearOrder Label] [OrderTop Label]

/-- `max_slice_op`. -/
def maxSliceOp : Int := 10 * Goal.kMaxExpectedCopies.toNat

/-- `cost[src][target]`: the fewer operations turn the source part into the target
part, the higher. -/
def cost (srcSlice targetSlice : Slice Label) (src target : Fin targetSlice.size) : Int :=
  let opCount := operationCount (srcSlice.parts.getD src []) (targetSlice.parts.getD target [])
  maxSliceOp * maxSliceOp - (maxSliceOp * min opCount.1 (maxSliceOp - 1) + min opCount.2 (maxSliceOp - 1))

/-- The auction on the costs of a pair. Its assignment is the `int` array: for
each source part the target part it gets, `-1` for none. -/
def solve (fuel : Nat) (targetSlice srcSlice : Slice Label) : Option (List Int) :=
  (LinearAssignment.auctionOptimization fuel targetSlice.size (cost srcSlice targetSlice)).map fun optimized =>
    (List.finRange targetSlice.size).map fun src => ((optimized.assignment src).map fun target => (target.val : Int)).getD (-1)

/-- `isSkippable`: every part asks for the same labels, so every order is the same. -/
def isSkippable (slice : Slice Label) : Bool :=
  match slice.parts with
  | [] => true
  | first :: rest => rest.all (partsMatch first)

/-- `result[k] = target_slice[assignment[k]]` for every part `k`; an index out of the
slice fails the `assert` of `operator[]`. -/
def permuteParts (targetSlice : Slice Label) (assignment : List Int) : Option (Slice Label) :=
  if (List.range targetSlice.size).all fun k =>
      decide (0 ≤ assignment.getD k (-1) ∧ assignment.getD k (-1) < targetSlice.size) then
    some ⟨targetSlice.type, (List.range targetSlice.size).map fun k => targetSlice.parts.getD (assignment.getD k (-1)).toNat [],
      by rw [List.length_map, List.length_range]; rfl⟩
  else none

variable (handle : Label → UInt16)

/-- The assignment of a pair: from the cache if one is provided and holds the pair,
else from the auction, then stored in the cache. -/
def getAssignment (fuel : Nat) (cache : Option (LinearAssignmentCache Label)) (targetSlice srcSlice : Slice Label) :
    Option (List Int × Option (LinearAssignmentCache Label)) :=
  match cache.bind fun provided => provided.checkMatchAndGetResult handle targetSlice srcSlice with
  | some assignment => some (assignment, cache)
  | none => (solve fuel targetSlice srcSlice).map fun assignment =>
      (assignment, cache.map fun provided => provided.store handle targetSlice srcSlice assignment)

/-- One round of the loop of `optimize`, on one target slice. -/
def optimizeSlice (fuel : Nat) (available : Goal Label) (cache : Option (LinearAssignmentCache Label))
    (targetSlice : Slice Label) : Option (Slice Label × Option (LinearAssignmentCache Label)) :=
  match available.find targetSlice.type with
  | none => some (targetSlice, cache)
  | some srcSlice =>
    if targetSlice.size ≤ 1 ∨ isSkippable targetSlice then some (targetSlice, cache)
    else (getAssignment handle fuel cache targetSlice srcSlice).bind fun found =>
      (permuteParts targetSlice found.1).map fun result => (result, found.2)

/-- The loop of `optimize` over the target slices. -/
def optimizeLoop (fuel : Nat) (available : Goal Label) :
    Option (LinearAssignmentCache Label) → List (Slice Label) →
      Option (List (Slice Label) × Option (LinearAssignmentCache Label))
  | cache, [] => some ([], cache)
  | cache, targetSlice :: rest => (optimizeSlice handle fuel available cache targetSlice).bind fun done =>
      (optimizeLoop fuel available done.2 rest).map fun later => (done.1 :: later.1, later.2)

omit [LinearOrder Label] [OrderTop Label] in
theorem permuteParts_type {targetSlice result : Slice Label} {assignment : List Int}
    (permuted : permuteParts targetSlice assignment = some result) : result.type = targetSlice.type := by
  unfold permuteParts at permuted
  split at permuted
  · cases permuted
    rfl
  · cases permuted

theorem optimizeSlice_type {fuel : Nat} {available : Goal Label} {cache cache' : Option (LinearAssignmentCache Label)}
    {targetSlice result : Slice Label} (done : optimizeSlice handle fuel available cache targetSlice = some (result, cache')) :
    result.type = targetSlice.type := by
  unfold optimizeSlice at done
  split at done
  · cases done
    rfl
  · split at done
    · cases done
      rfl
    · obtain ⟨found, _, permuted⟩ := Option.bind_eq_some_iff.mp done
      obtain ⟨permutedSlice, permutedHere, same⟩ := Option.map_eq_some_iff.mp permuted
      cases same
      exact permuteParts_type permutedHere

/-- The loop keeps the type of every target slice. -/
theorem optimizeLoop_types {fuel : Nat} {available : Goal Label} :
    ∀ {cache cache' : Option (LinearAssignmentCache Label)} {slices results : List (Slice Label)},
      optimizeLoop handle fuel available cache slices = some (results, cache') →
        results.map Slice.type = slices.map Slice.type
  | _, _, [], _, done => by
    cases done
    rfl
  | _, _, targetSlice :: rest, _, done => by
    obtain ⟨⟨result, cache⟩, first, later⟩ := Option.bind_eq_some_iff.mp done
    obtain ⟨⟨results, _⟩, rest', same⟩ := Option.map_eq_some_iff.mp later
    cases same
    rw [List.map_cons, List.map_cons, optimizeSlice_type handle first, optimizeLoop_types rest']

/-- `optimize(useLinearAssignmentOptimizer, linearAssignmentCache)`: reorder the parts
of the target slices, then refresh the redundancy levels. -/
def optimize (fuel : Nat) (calculator : ChunkCopiesCalculator Label) (useLinearAssignmentOptimizer : Bool)
    (linearAssignmentCache : Option (LinearAssignmentCache Label)) :
    Option (ChunkCopiesCalculator Label × Option (LinearAssignmentCache Label)) :=
  if useLinearAssignmentOptimizer then
    match reordered : optimizeLoop handle fuel calculator.available linearAssignmentCache calculator.target.slices with
    | none => none
    | some (slices, cache) =>
      some (evalRedundancyLevel { calculator with
        target := ⟨slices, by rw [optimizeLoop_types handle reordered]; exact calculator.target.types_nodup⟩ }, cache)
  else some (evalRedundancyLevel calculator, linearAssignmentCache)

/-! ## The cache is transparent -/

/-- The cache holds, for every pair `optimize` may ask about, what the auction gives
for it. -/
def Faithful (fuel : Nat) (cache : LinearAssignmentCache Label) : Prop :=
  HashedMemo.Faithful (fun pair : Slice Label × Slice Label => solve fuel pair.1 pair.2) (fun pair => 1 < pair.1.size)
    cache.table

/-- The default entry holds one-part slices, which are never asked about. -/
theorem faithful_empty (fuel : Nat) : Faithful fuel (LinearAssignmentCache.empty : LinearAssignmentCache Label) := by
  have never : ¬ 1 < (Slice.ofType tapeType : Slice Label).size := by
    show ¬ 1 < tapeType.expectedParts
    decide
  show HashedMemo.Faithful _ _ fun _ : Int64 => (OptimizerInputOutput.init : OptimizerInputOutput Label).toEntry
  exact HashedMemo.faithful_const never

/-- A result of a run with the cache against the same run without: the same
outcome, the cache left faithful, and no cache on the other side. -/
structure Transparent (fuel : Nat) {α : Type} (cached uncached : Option (α × Option (LinearAssignmentCache Label))) :
    Prop where
  same : cached.map Prod.fst = uncached.map Prod.fst
  faithful : ∀ x ∈ cached, ∃ cache, x.2 = some cache ∧ Faithful fuel cache
  uncached : ∀ x ∈ uncached, x.2 = none

section Transparent

variable {fuel : Nat} {α β : Type}

theorem transparent_map (outcome : Option α) {cache : LinearAssignmentCache Label} (faithful : Faithful fuel cache) :
    Transparent fuel (outcome.map fun a => (a, some cache)) (outcome.map fun a => (a, none)) := by
  cases outcome with
  | none => exact ⟨rfl, by simp, by simp⟩
  | some a => exact ⟨rfl, by simpa using faithful, by simp⟩

/-- Outcomes of the rest of a run, started from the same first outcome, stay
transparent. -/
theorem Transparent.bind {cached uncached : Option (α × Option (LinearAssignmentCache Label))}
    (first : Transparent fuel cached uncached)
    (next : α → Option (LinearAssignmentCache Label) → Option (β × Option (LinearAssignmentCache Label)))
    (step : ∀ a cache, Faithful fuel cache → Transparent fuel (next a (some cache)) (next a none)) :
    Transparent fuel (cached.bind fun x => next x.1 x.2) (uncached.bind fun x => next x.1 x.2) := by
  have same := first.same
  cases cached with
  | none =>
    -- then the run without the cache failed too
    have failed : uncached = none := by simpa using same.symm
    rw [failed]
    exact ⟨rfl, by simp, by simp⟩
  | some x =>
    obtain ⟨cache, held, faithful⟩ := first.faithful x rfl
    cases uncached with
    | none => simp at same
    | some y =>
      have sameFirst : x.1 = y.1 := by simpa using same
      have noCache : y.2 = none := first.uncached y rfl
      simp only [Option.bind_some]
      rw [held, noCache, ← sameFirst]
      exact step x.1 cache faithful

theorem Transparent.map_fst {cached uncached : Option (α × Option (LinearAssignmentCache Label))}
    (first : Transparent fuel cached uncached) (f : α → β) :
    Transparent fuel (cached.map fun x => (f x.1, x.2)) (uncached.map fun x => (f x.1, x.2)) := by
  refine ⟨?_, ?_, ?_⟩
  · have same := congrArg (Option.map f) first.same
    simpa [Option.map_map, Function.comp_def] using same
  · intro x member
    obtain ⟨y, held, rfl⟩ := Option.map_eq_some_iff.mp member
    exact first.faithful y held
  · intro x member
    obtain ⟨y, held, rfl⟩ := Option.map_eq_some_iff.mp member
    exact first.uncached y held

end Transparent

section Optimize

variable {fuel : Nat} {cache : LinearAssignmentCache Label}

/-- Asked about a pair it may be asked about, the cache answers as the auction
does, and what the auction gives is stored. -/
theorem getAssignment_transparent (faithful : Faithful fuel cache) {targetSlice : Slice Label}
    (asking : 1 < targetSlice.size) (srcSlice : Slice Label) :
    Transparent fuel (getAssignment handle fuel (some cache) targetSlice srcSlice)
      (getAssignment handle fuel none targetSlice srcSlice) := by
  have uncached : getAssignment handle fuel none targetSlice srcSlice =
      (solve fuel targetSlice srcSlice).map fun assignment => (assignment, none) := rfl
  rw [uncached]
  unfold getAssignment
  simp only [Option.bind_some]
  cases found : cache.checkMatchAndGetResult handle targetSlice srcSlice with
  | some assignment =>
    -- a hit is the auction's answer for the pair
    have answer : solve fuel targetSlice srcSlice = some assignment := by
      rw [checkMatchAndGetResult_eq_lookup] at found
      exact HashedMemo.Faithful.lookup faithful (pairHash handle) asking found
    rw [answer]
    exact transparent_map (some assignment) faithful
  | none =>
    cases answer : solve fuel targetSlice srcSlice with
    | none => exact transparent_map none faithful
    | some assignment =>
      have stored : Faithful fuel (cache.store handle targetSlice srcSlice assignment) := by
        unfold Faithful
        rw [table_store]
        exact HashedMemo.Faithful.store faithful (pairHash handle) answer
      exact transparent_map (some assignment) stored

theorem optimizeSlice_transparent (faithful : Faithful fuel cache) (available : Goal Label)
    (targetSlice : Slice Label) :
    Transparent fuel (optimizeSlice handle fuel available (some cache) targetSlice)
      (optimizeSlice handle fuel available none targetSlice) := by
  unfold optimizeSlice
  cases available.find targetSlice.type with
  | none => exact transparent_map (some targetSlice) faithful
  | some srcSlice =>
    dsimp only
    by_cases skipped : targetSlice.size ≤ 1 ∨ isSkippable targetSlice
    · rw [if_pos skipped, if_pos skipped]
      exact transparent_map (some targetSlice) faithful
    · rw [if_neg skipped, if_neg skipped]
      have asking : 1 < targetSlice.size := by
        have := not_or.mp skipped
        omega
      exact (getAssignment_transparent handle faithful asking srcSlice).bind
        (fun assignment cache => (permuteParts targetSlice assignment).map fun result => (result, cache))
        fun assignment _ faithful' => transparent_map _ faithful'

theorem optimizeLoop_transparent (available : Goal Label) :
    ∀ (slices : List (Slice Label)) {cache : LinearAssignmentCache Label}, Faithful fuel cache →
      Transparent fuel (optimizeLoop handle fuel available (some cache) slices)
        (optimizeLoop handle fuel available none slices)
  | [], _, faithful => transparent_map (some []) faithful
  | targetSlice :: rest, _, faithful => by
    simp only [optimizeLoop]
    -- the first slice, then the rest of the loop from the cache it leaves
    exact (optimizeSlice_transparent handle faithful available targetSlice).bind
      (fun done cache => (optimizeLoop handle fuel available cache rest).map fun later => (done :: later.1, later.2))
      fun done _ faithful' => (optimizeLoop_transparent available rest faithful').map_fst (done :: ·)

/-- A call of `optimize` with a faithful cache: the calculator it leaves is the one
the call without a cache leaves, and the cache stays faithful. -/
theorem optimize_transparent (faithful : Faithful fuel cache) (calculator : ChunkCopiesCalculator Label)
    (useLinearAssignmentOptimizer : Bool) :
    Transparent fuel (optimize handle fuel calculator useLinearAssignmentOptimizer (some cache))
      (optimize handle fuel calculator useLinearAssignmentOptimizer none) := by
  cases useLinearAssignmentOptimizer with
  | false => exact transparent_map (some (evalRedundancyLevel calculator)) faithful
  | true =>
    have loop := optimizeLoop_transparent handle calculator.available calculator.target.slices faithful
    have same := loop.same
    unfold optimize
    simp only [if_true]
    split
    next failed =>
      split
      next => exact ⟨rfl, by simp, by simp⟩
      next slices cache' ran => simp [failed, ran] at same
    next slices cache' ran =>
      obtain ⟨provided, held, faithful'⟩ := loop.faithful _ ran
      split
      next failed => simp [failed, ran] at same
      next slices' none' ran' =>
        have sameSlices : slices = slices' := by simpa [ran, ran'] using same
        have noCache : none' = none := loop.uncached _ ran'
        subst sameSlices noCache held
        exact ⟨rfl, by simpa using faithful', by simp⟩

/-- Asked about a pair it may be asked about, a faithful cache answers only from the
entry that holds that very pair, and with the auction's answer for it. -/
theorem Faithful.checkMatchAndGetResult (faithful : Faithful fuel cache) {targetSlice sourceSlice : Slice Label}
    {assignment : List Int} (asking : 1 < targetSlice.size)
    (found : cache.checkMatchAndGetResult handle targetSlice sourceSlice = some assignment) :
    cache.cachedData (hashSlicePair handle targetSlice sourceSlice) = ⟨targetSlice, sourceSlice, assignment⟩ ∧
      solve fuel targetSlice sourceSlice = some assignment := by
  rw [checkMatchAndGetResult_eq_lookup] at found
  refine ⟨?_, HashedMemo.Faithful.lookup faithful (pairHash handle) asking found⟩
  obtain ⟨holds, answer⟩ := HashedMemo.find_eq_some.mp found
  change (cache.cachedData (hashSlicePair handle targetSlice sourceSlice)).toEntry.input = _ at holds
  change (cache.cachedData (hashSlicePair handle targetSlice sourceSlice)).toEntry.answer = _ at answer
  generalize cache.cachedData (hashSlicePair handle targetSlice sourceSlice) = entry at holds answer ⊢
  obtain ⟨stored, storedSource, storedAssignment⟩ := entry
  simp only [toEntry, Prod.mk.injEq] at holds answer
  rw [holds.1, holds.2, answer]

end Optimize

/-- Calls of `optimize(true, &cache)` one after another on the calculators `calls`,
sharing one cache: what each call leaves of its calculator. -/
def optimizeCalls (fuel : Nat) (cache : LinearAssignmentCache Label) :
    List (ChunkCopiesCalculator Label) → List (Option (ChunkCopiesCalculator Label))
  | [] => []
  | calculator :: rest =>
    match optimize handle fuel calculator true (some cache) with
    | some (result, cache') => some result :: optimizeCalls fuel (cache'.getD cache) rest
    | none => none :: optimizeCalls fuel cache rest

/-- The caches that calls of `optimize(true, &cache)` reach from a new cache. -/
inductive Reachable (fuel : Nat) : LinearAssignmentCache Label → Prop
  | empty : Reachable fuel LinearAssignmentCache.empty
  | call {cache cache' : LinearAssignmentCache Label} {calculator result : ChunkCopiesCalculator Label} :
      Reachable fuel cache → optimize handle fuel calculator true (some cache) = some (result, some cache') →
        Reachable fuel cache'

theorem Reachable.faithful {fuel : Nat} {cache : LinearAssignmentCache Label} (reachable : Reachable handle fuel cache) :
    Faithful fuel cache := by
  induction reachable with
  | empty => exact faithful_empty fuel
  | call _ ran ih =>
    obtain ⟨provided, held, faithful⟩ := (optimize_transparent handle ih _ true).faithful _ ran
    cases held
    exact faithful

/-- Over calls sharing a faithful cache, every call leaves its calculator as the call
without a cache does. -/
theorem optimizeCalls_eq (fuel : Nat) :
    ∀ (calls : List (ChunkCopiesCalculator Label)) {cache : LinearAssignmentCache Label}, Faithful fuel cache →
      optimizeCalls handle fuel cache calls =
        calls.map fun calculator => (optimize handle fuel calculator true none).map Prod.fst
  | [], _, _ => rfl
  | calculator :: rest, cache, faithful => by
    have call := optimize_transparent handle faithful calculator true
    have same := call.same
    rw [optimizeCalls, List.map_cons]
    cases ran : optimize handle fuel calculator true (some cache) with
    | none =>
      rw [ran] at same
      rw [← same, optimizeCalls_eq fuel rest faithful]
      rfl
    | some x =>
      obtain ⟨result, cache'⟩ := x
      obtain ⟨provided, held, faithful'⟩ := call.faithful _ ran
      cases held
      rw [ran] at same
      rw [← same]
      dsimp only
      rw [Option.getD_some, optimizeCalls_eq fuel rest faithful']
      rfl

/-- The linear-assignment cache is transparent: over any calls of `optimize` sharing
one cache from new, every call leaves its calculator as the call without a cache
does; a reachable cache answers a pair of slices of more than one part only from the
entry at the pair's hash that holds the very pair, and with what the auction gives
for it; and the hashes never leave `int64`. -/
theorem optimize_cache_transparent (fuel : Nat) (calls : List (ChunkCopiesCalculator Label)) :
    optimizeCalls handle fuel LinearAssignmentCache.empty calls =
        calls.map (fun calculator => (optimize handle fuel calculator true none).map Prod.fst) ∧
      (∀ cache, Reachable handle fuel cache → ∀ (targetSlice sourceSlice : Slice Label) (assignment : List Int),
        1 < targetSlice.size → cache.checkMatchAndGetResult handle targetSlice sourceSlice = some assignment →
          cache.cachedData (hashSlicePair handle targetSlice sourceSlice) = ⟨targetSlice, sourceSlice, assignment⟩ ∧
            solve fuel targetSlice sourceSlice = some assignment) ∧
      ∀ targetSlice sourceSlice : Slice Label,
        (hashSlicePair handle targetSlice sourceSlice).toInt = slicePairPolynomial handle targetSlice sourceSlice :=
  ⟨optimizeCalls_eq handle fuel calls (faithful_empty fuel),
    fun _ reachable _ _ _ asking found => (reachable.faithful handle).checkMatchAndGetResult handle asking found,
    toInt_hashSlicePair handle⟩

end ChunkCopiesCalculator

end SaunaFS
