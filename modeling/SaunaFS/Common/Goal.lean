import SaunaFS.Lib.KeyedList

/-! Slice types, label counts, slices and goals (`src/common/goal.h`, `slice_traits.h`).

A slice keeps, for every part, a map from media labels to copy counts. The
source stores all parts in one flat vector and hands out per-part proxies;
here a slice is the list of those per-part maps, which is the view every
modelled caller works with. Label maps are association lists in the order of
the source's `flat_map`; counts keep the source's `uint16_t`.
-/

set_option autoImplicit false

namespace SaunaFS

/-- `detail::SliceType`: std, tape, xor2..xor9, then ec(k, m) from `kECFirst`. -/
structure SliceType where
  value : Nat
  valid : value < 10 + 31 * 32
  deriving DecidableEq

namespace SliceType

def kStandard : Nat := 0
def kTape : Nat := 1
def kXor2 : Nat := 2
def kXor9 : Nat := 9
def kECFirst : Nat := 10
def kECLast : Nat := kECFirst + (31 * 32 - 1)

/-- `kTypeParts`: the part counts of the types below `kECFirst`. -/
def kTypeParts : List Nat := [1, 1, 3, 4, 5, 6, 7, 8, 9, 10]

def expectedParts (type : SliceType) : Nat :=
  if type.value < kECFirst then kTypeParts.getD type.value 0
  else 3 + (type.value - kECFirst) / 32 + (type.value - kECFirst) % 32

end SliceType

/-! `slice_traits`: classification of slice types. -/
namespace SliceTraits

def isStandard (type : SliceType) : Bool := type.value == SliceType.kStandard

def isTape (type : SliceType) : Bool := type.value == SliceType.kTape

def isXor (type : SliceType) : Bool :=
  SliceType.kXor2 ≤ type.value && type.value ≤ SliceType.kXor9

def isEC (type : SliceType) : Bool :=
  SliceType.kECFirst ≤ type.value && type.value ≤ SliceType.kECLast

/-- `xors::getXorLevel`. -/
def getXorLevel (type : SliceType) : Nat := type.value - SliceType.kXor2 + 2

/-- `getNumberOfDataParts`: the xor level, the k of ec(k, m), otherwise one. -/
def getNumberOfDataParts (type : SliceType) : Nat :=
  if isXor type then getXorLevel type
  else if isEC type then 2 + (type.value - SliceType.kECFirst) / 32
  else 1

def getNumberOfParityParts (type : SliceType) : Nat :=
  if isXor type then 1
  else if isEC type then 1 + (type.value - SliceType.kECFirst) % 32
  else 0

end SliceTraits

variable {Label : Type}

/-- `Goal::Slice::Labels`: copy counts per media label. -/
abbrev Labels (Label : Type) := List (Label × UInt16)

namespace Labels

/-- `Slice::countLabels`: the counts summed into an `int`. -/
def countLabels (labels : Labels Label) : Nat := (labels.map fun entry => entry.2.toNat).sum

@[simp] theorem countLabels_nil : countLabels ([] : Labels Label) = 0 := rfl

@[simp] theorem countLabels_cons (entry : Label × UInt16) (labels : Labels Label) :
    countLabels (entry :: labels) = entry.2.toNat + countLabels labels := by
  simp [countLabels]

section
variable [DecidableEq Label]

/-- The count stored for `label` by the first entry naming it (`flat_map::find`). -/
def find (labels : Labels Label) (label : Label) : Option UInt16 :=
  (labels.find? fun entry => entry.1 = label).map Prod.snd

/-- `--(it->second)` on the entry `find` returns; the entry stays even at zero. -/
def decrement : Labels Label → Label → Labels Label
  | [], _ => []
  | (name, count) :: rest, label =>
    if name = label then (name, count - 1) :: rest else (name, count) :: decrement rest label

/-- The body of `ChunkCopiesCalculator::removePart` on one part: decrement the
entry found for `label` and erase it once its count is no longer positive. -/
def removeOne : Labels Label → Label → Labels Label
  | [], _ => []
  | (name, count) :: rest, label =>
    if name = label then
      if count - 1 = 0 then rest else (name, count - 1) :: rest
    else (name, count) :: removeOne rest label

/-- `uint16_t` decrement of a positive count. -/
theorem toNat_pred {count : UInt16} (positive : 0 < count) : (count - 1).toNat + 1 = count.toNat := by
  have atLeastOne : (1 : UInt16) ≤ count := by
    rw [UInt16.le_iff_toNat_le]
    rw [UInt16.lt_iff_toNat_lt] at positive
    simp only [UInt16.toNat_zero] at positive
    simp only [UInt16.toNat_one]
    omega
  rw [UInt16.toNat_sub_of_le _ _ atLeastOne]
  have : (1 : UInt16).toNat ≤ count.toNat := UInt16.le_iff_toNat_le.mp atLeastOne
  simp at this ⊢
  omega

/-- Decrementing a label found with a positive count lowers the total by one. -/
theorem countLabels_decrement {labels : Labels Label} {label : Label} {count : UInt16}
    (found : labels.find label = some count) (positive : 0 < count) :
    countLabels (labels.decrement label) + 1 = countLabels labels := by
  induction labels with
  | nil => simp [find] at found
  | cons entry rest ih =>
    obtain ⟨name, stored⟩ := entry
    by_cases hit : name = label
    · have same : stored = count := by simpa [find, hit] using found
      subst same
      have lowered := toNat_pred positive
      simp only [decrement, hit, if_true, countLabels_cons]
      omega
    · have later : find rest label = some count := by simpa [find, hit] using found
      simp only [decrement, hit, if_false, countLabels_cons]
      have step := ih later
      omega

/-- Removing one copy of a label found with a positive count lowers the total by
one: erasing the entry at zero changes no sum. -/
theorem countLabels_removeOne {labels : Labels Label} {label : Label} {count : UInt16}
    (found : labels.find label = some count) (positive : 0 < count) :
    countLabels (labels.removeOne label) + 1 = countLabels labels := by
  induction labels with
  | nil => simp [find] at found
  | cons entry rest ih =>
    obtain ⟨name, stored⟩ := entry
    by_cases hit : name = label
    · have same : stored = count := by simpa [find, hit] using found
      subst same
      have lowered := toNat_pred positive
      by_cases empty : stored - 1 = 0
      · have zero : (stored - 1).toNat = 0 := by simp [empty]
        simp only [removeOne, hit, empty, if_true, countLabels_cons]
        omega
      · simp only [removeOne, hit, empty, if_true, if_false, countLabels_cons]
        omega
    · have later : find rest label = some count := by simpa [find, hit] using found
      simp only [removeOne, hit, if_false, countLabels_cons]
      have step := ih later
      omega

end

end Labels

/-- `detail::Slice`: a slice type and the label map of each of its parts. -/
structure Slice (Label : Type) where
  type : SliceType
  parts : List (Labels Label)
  parts_length : parts.length = type.expectedParts

namespace Slice

/-- `Slice::getExpectedCopies`: all counts of all parts. -/
def getExpectedCopies (slice : Slice Label) : Nat := (slice.parts.map Labels.countLabels).sum

/-- Apply `update` to the label map of part `part`, keeping the type. -/
def modifyPart (slice : Slice Label) (part : Nat) (update : Labels Label → Labels Label) :
    Slice Label where
  type := slice.type
  parts := slice.parts.modify part update
  parts_length := by rw [List.length_modify]; exact slice.parts_length

@[simp] theorem modifyPart_type (slice : Slice Label) (part : Nat)
    (update : Labels Label → Labels Label) : (slice.modifyPart part update).type = slice.type := rfl

@[simp] theorem modifyPart_parts (slice : Slice Label) (part : Nat)
    (update : Labels Label → Labels Label) :
    (slice.modifyPart part update).parts = slice.parts.modify part update := rfl

end Slice

/-- `Goal`: slices kept in a `flat_set` ordered by type, so no type occurs twice. -/
structure Goal (Label : Type) where
  slices : List (Slice Label)
  types_nodup : (slices.map Slice.type).Nodup

namespace Goal

def size (goal : Goal Label) : Nat := goal.slices.length

/-- `Goal::find`: the slice of the given type. -/
def find (goal : Goal Label) (type : SliceType) : Option (Slice Label) :=
  goal.slices.find? fun slice => slice.type = type

/-- Replace the slice of type `type` by `update` of it; `update` keeps types. -/
def modifySlice (goal : Goal Label) (type : SliceType) (update : Slice Label → Slice Label)
    (keeps : ∀ slice, (update slice).type = slice.type) : Goal Label where
  slices := KeyedList.replace Slice.type type update goal.slices
  types_nodup := by
    rw [KeyedList.map_key_replace Slice.type type update keeps]
    exact goal.types_nodup

theorem find_of_mem (goal : Goal Label) {slice : Slice Label} (member : slice ∈ goal.slices) :
    goal.find slice.type = some slice :=
  KeyedList.find?_key_of_mem Slice.type goal.types_nodup member

theorem mem_of_find (goal : Goal Label) {type : SliceType} {slice : Slice Label}
    (found : goal.find type = some slice) : slice ∈ goal.slices ∧ slice.type = type := by
  refine ⟨List.mem_of_find?_eq_some found, ?_⟩
  simpa using List.find?_some found

end Goal

end SaunaFS
