import SaunaFS.Chunkserver.CmrDisk
import SaunaFS.Lib.Striping

/-! The per-part traits of `src/common/slice_traits.h`: which parts of a slice
hold data and which parity, the data index of a part, and how many blocks and
bytes of a chunk a part stores (`getNumberOfBlocks`,
`chunkLengthToChunkPartLength`, the lengths `chunk_multi_truncate` gives each
part).

A chunk's blocks are dealt round-robin to its `k` data parts, block `j` to the
part with data index `j % k`; parity parts are as long as data part `0`. Both
closed forms of the source count exactly that striping (`Striping.held`), so
the parts of a slice share out the chunk's bytes and blocks.

Lengths are `Nat`: a chunk is at most `SFSCHUNKSIZE` bytes, far inside the
source's `int`, and for a valid part `k - index - 1` is never negative.
-/

set_option autoImplicit false

namespace SaunaFS

open Chunkserver

namespace SliceTraits

namespace xors

def kXorParityPart : Nat := 0

def isXorParity (cpt : ChunkPartType) : Bool := isXor cpt.sliceType && cpt.slicePart == kXorParityPart

end xors

namespace ec

def isParityPart (cpt : ChunkPartType) : Bool := getNumberOfDataParts cpt.sliceType ≤ cpt.slicePart

end ec

def isParityPart (cpt : ChunkPartType) : Bool :=
  if isXor cpt.sliceType then xors.isXorParity cpt
  else if isEC cpt.sliceType then ec.isParityPart cpt
  else false

def isDataPart (cpt : ChunkPartType) : Bool := !isParityPart cpt

/-- `getDataPartIndex`: xor data parts are numbered from `1`, ec data parts from `0`. -/
def getDataPartIndex (cpt : ChunkPartType) : Nat :=
  if isXor cpt.sliceType then cpt.slicePart - 1 else cpt.slicePart

def getNumberOfBlocks (cpt : ChunkPartType) (blocksInChunk : Nat) : Nat :=
  let dataPartIndex := if isDataPart cpt then getDataPartIndex cpt else 0
  (blocksInChunk + (getNumberOfDataParts cpt.sliceType - dataPartIndex - 1)) / getNumberOfDataParts cpt.sliceType

def chunkLengthToChunkPartLength (cpt : ChunkPartType) (chunkLength : Nat) : Nat :=
  if getNumberOfDataParts cpt.sliceType = 1 then chunkLength
  else
    let fullStripe := chunkLength / (getNumberOfDataParts cpt.sliceType * SFSBLOCKSIZE)
    let baseLen := fullStripe * SFSBLOCKSIZE
    let base := baseLen * getNumberOfDataParts cpt.sliceType
    let rest := chunkLength - base
    let dataPartIndex := if isDataPart cpt then getDataPartIndex cpt else 0
    -- `std::max(rest - data_part_index * SFSBLOCKSIZE, 0)` is the truncated subtraction
    let partRestLen := min (rest - dataPartIndex * SFSBLOCKSIZE) SFSBLOCKSIZE
    baseLen + partRestLen

/-- The data parts of a slice type, by slice part. -/
def dataParts (type : SliceType) : List Nat :=
  (List.range type.expectedParts).filter fun part => isDataPart ⟨type, part⟩

/-! ## The three families of slice types -/

theorem isXor_iff (type : SliceType) : isXor type = true ↔ 2 ≤ type.value ∧ type.value ≤ 9 := by
  unfold isXor
  rw [Bool.and_eq_true, decide_eq_true_iff, decide_eq_true_iff]
  rfl

theorem isEC_iff (type : SliceType) : isEC type = true ↔ 10 ≤ type.value ∧ type.value ≤ 1001 := by
  unfold isEC
  rw [Bool.and_eq_true, decide_eq_true_iff, decide_eq_true_iff]
  rfl

theorem expectedParts_of_isXor {type : SliceType} (xor : isXor type = true) :
    type.expectedParts = getNumberOfDataParts type + 1 := by
  have bounds := (isXor_iff type).mp xor
  have table : ∀ v < 10, 2 ≤ v → SliceType.kTypeParts.getD v 0 = v + 1 := by decide
  rw [SliceType.expectedParts, if_pos (by unfold SliceType.kECFirst; omega), table _ (by omega) bounds.1,
    getNumberOfDataParts, if_pos xor, getXorLevel]
  unfold SliceType.kXor2
  omega

theorem expectedParts_of_isEC {type : SliceType} (ec : isEC type = true) :
    type.expectedParts = getNumberOfDataParts type + getNumberOfParityParts type := by
  have bounds := (isEC_iff type).mp ec
  have notXor : isXor type = false := by
    rw [← Bool.not_eq_true, isXor_iff]
    omega
  rw [SliceType.expectedParts, if_neg (by unfold SliceType.kECFirst; omega), getNumberOfDataParts,
    getNumberOfParityParts, notXor, if_neg Bool.false_ne_true, if_pos ec, if_neg Bool.false_ne_true, if_pos ec]
  unfold SliceType.kECFirst
  omega

/-- Standard and tape slices: one part, holding all the data. -/
theorem expectedParts_of_plain {type : SliceType} (notXor : isXor type = false) (notEC : isEC type = false) :
    type.expectedParts = 1 ∧ getNumberOfDataParts type = 1 := by
  rw [← Bool.not_eq_true, isXor_iff] at notXor
  rw [← Bool.not_eq_true, isEC_iff] at notEC
  have plain : type.value = 0 ∨ type.value = 1 := by
    have := type.valid
    omega
  have dataParts : getNumberOfDataParts type = 1 := by
    rw [getNumberOfDataParts, if_neg (by rw [isXor_iff]; exact notXor), if_neg (by rw [isEC_iff]; exact notEC)]
  refine ⟨?_, dataParts⟩
  rw [SliceType.expectedParts, if_pos (by unfold SliceType.kECFirst; omega)]
  rcases plain with zero | one
  · rw [zero]
    rfl
  · rw [one]
    rfl

theorem getNumberOfDataParts_pos (type : SliceType) : 0 < getNumberOfDataParts type := by
  unfold getNumberOfDataParts getXorLevel
  split
  · omega
  · split <;> omega

/-! ## A part's share of a chunk -/

section Part

variable {cpt : ChunkPartType} (valid : cpt.slicePart < cpt.sliceType.expectedParts)
include valid

/-- The index both closed forms use, the data index or `0` for a parity part, is
one of the `k` stripes. -/
theorem dataPartIndex_lt :
    (if isDataPart cpt then getDataPartIndex cpt else 0) < getNumberOfDataParts cpt.sliceType := by
  split
  · rename_i data
    unfold isDataPart isParityPart at data
    unfold getDataPartIndex
    by_cases xor : isXor cpt.sliceType = true
    · -- xor data parts are `1 .. k`
      have parts := expectedParts_of_isXor xor
      rw [if_pos xor] at data ⊢
      simp only [xors.isXorParity, xor, xors.kXorParityPart, Bool.true_and, Bool.not_eq_true',
        beq_eq_false_iff_ne] at data
      omega
    · rw [if_neg xor] at data ⊢
      by_cases ecType : isEC cpt.sliceType = true
      · -- ec data parts are `0 .. k - 1`
        rw [if_pos ecType] at data
        simp only [ec.isParityPart, Bool.not_eq_true', decide_eq_false_iff_not] at data
        omega
      · have plain := expectedParts_of_plain (Bool.eq_false_iff.mpr xor) (Bool.eq_false_iff.mpr ecType)
        omega
  · exact getNumberOfDataParts_pos _

theorem getNumberOfBlocks_eq_held (blocksInChunk : Nat) :
    getNumberOfBlocks cpt blocksInChunk =
      Striping.held 1 (getNumberOfDataParts cpt.sliceType) (if isDataPart cpt then getDataPartIndex cpt else 0)
        blocksInChunk := by
  have inStripes := dataPartIndex_lt valid
  rw [Striping.held_one inStripes, getNumberOfBlocks]
  congr 1
  omega

theorem chunkLengthToChunkPartLength_eq_held (chunkLength : Nat) :
    chunkLengthToChunkPartLength cpt chunkLength =
      Striping.held SFSBLOCKSIZE (getNumberOfDataParts cpt.sliceType)
        (if isDataPart cpt then getDataPartIndex cpt else 0) chunkLength := by
  have inStripes := dataPartIndex_lt valid
  unfold chunkLengthToChunkPartLength
  split
  · -- one data part holds every byte
    rename_i single
    rw [single] at inStripes ⊢
    refine (Nat.count_of_forall fun x _ => ?_).symm
    show x / SFSBLOCKSIZE % 1 = _
    rw [Nat.mod_one]
    omega
  · rw [Striping.held_eq (by unfold SFSBLOCKSIZE; omega) inStripes]
    dsimp only
    -- what is left after the whole stripes is `length % (k * SFSBLOCKSIZE)`
    have rest : chunkLength - chunkLength / (getNumberOfDataParts cpt.sliceType * SFSBLOCKSIZE) * SFSBLOCKSIZE *
        getNumberOfDataParts cpt.sliceType = chunkLength % (getNumberOfDataParts cpt.sliceType * SFSBLOCKSIZE) := by
      rw [Nat.mul_assoc, Nat.mul_comm SFSBLOCKSIZE, Nat.mod_def,
        Nat.mul_comm (chunkLength / (getNumberOfDataParts cpt.sliceType * SFSBLOCKSIZE))]
    have units := Nat.div_add_mod' (chunkLength % (getNumberOfDataParts cpt.sliceType * SFSBLOCKSIZE)) SFSBLOCKSIZE
    have cut := Nat.mod_lt (chunkLength % (getNumberOfDataParts cpt.sliceType * SFSBLOCKSIZE)) (show 0 < SFSBLOCKSIZE by
      unfold SFSBLOCKSIZE; omega)
    rw [rest]
    generalize chunkLength % (getNumberOfDataParts cpt.sliceType * SFSBLOCKSIZE) = tail at units cut ⊢
    generalize (if isDataPart cpt then getDataPartIndex cpt else 0) = index
    generalize tail / SFSBLOCKSIZE = m at units ⊢
    generalize tail % SFSBLOCKSIZE = r at units cut ⊢
    generalize chunkLength / (getNumberOfDataParts cpt.sliceType * SFSBLOCKSIZE) = periods
    subst units
    simp only [SFSBLOCKSIZE] at cut ⊢
    split_ifs <;> omega

end Part

/-! ## The data parts of a slice -/

/-- The data parts of a slice carry the data indices `0 .. k - 1`, in order. -/
theorem dataParts_index (type : SliceType) :
    (dataParts type).map (fun part => getDataPartIndex ⟨type, part⟩) = List.range (getNumberOfDataParts type) := by
  unfold dataParts
  by_cases xor : isXor type = true
  · -- parts `1 .. k`, part `0` the parity
    have data : ∀ part, isDataPart ⟨type, part⟩ = !(part == 0) := by
      intro part
      simp [isDataPart, isParityPart, xor, xors.isXorParity, xors.kXorParityPart]
    rw [expectedParts_of_isXor xor, List.range_succ_eq_map, List.filter_cons_of_neg (by simp [data]),
      List.filter_map, List.filter_eq_self.mpr (fun part _ => by simp [data]), List.map_map]
    exact List.map_id'' (fun part => by simp [getDataPartIndex, xor]) _
  · by_cases ecType : isEC type = true
    · -- parts `0 .. k - 1`, then the parity parts
      have data : ∀ part, isDataPart ⟨type, part⟩ = !decide (getNumberOfDataParts type ≤ part) := by
        intro part
        simp [isDataPart, isParityPart, xor, ecType, ec.isParityPart]
      rw [expectedParts_of_isEC ecType, List.range_add, List.filter_append,
        List.filter_eq_self.mpr (fun part member => by simpa [data] using member),
        List.filter_eq_nil_iff.mpr (fun part member => by simp at member; simp [data]; omega), List.append_nil]
      exact List.map_id'' (fun part => by simp [getDataPartIndex, xor]) _
    · -- the one part of a standard or tape slice
      obtain ⟨one, single⟩ := expectedParts_of_plain (Bool.eq_false_iff.mpr xor) (Bool.eq_false_iff.mpr ecType)
      rw [one, single]
      simp [isDataPart, isParityPart, xor, ecType, getDataPartIndex]

theorem mem_dataParts {type : SliceType} {part : Nat} (member : part ∈ dataParts type) :
    part < type.expectedParts ∧ isDataPart ⟨type, part⟩ = true := by
  simpa [dataParts] using member

/-- A sum over the data parts of what each has by its data index. -/
theorem sum_dataParts {type : SliceType} {share : Nat → Nat} (byIndex : Nat → Nat)
    (same : ∀ part ∈ dataParts type, share part = byIndex (getDataPartIndex ⟨type, part⟩)) :
    ((dataParts type).map share).sum = ((List.range (getNumberOfDataParts type)).map byIndex).sum := by
  rw [List.map_congr_left same, ← dataParts_index type, List.map_map]
  rfl

/-! ## The parts share out the chunk -/

theorem partLengths_share_chunk (type : SliceType) (chunkLength : Nat) :
    let k := getNumberOfDataParts type
    let blocks := (chunkLength + SFSBLOCKSIZE - 1) / SFSBLOCKSIZE
    (∀ part < type.expectedParts,
      let cpt : ChunkPartType := ⟨type, part⟩
      let index := if isDataPart cpt then getDataPartIndex cpt else 0
      index < k ∧
        chunkLengthToChunkPartLength cpt chunkLength = Striping.held SFSBLOCKSIZE k index chunkLength ∧
        getNumberOfBlocks cpt blocks = Striping.held 1 k index blocks ∧
        chunkLengthToChunkPartLength cpt chunkLength ≤ Striping.held SFSBLOCKSIZE k 0 chunkLength ∧
        getNumberOfBlocks cpt blocks ≤ Striping.held 1 k 0 blocks ∧
        (chunkLengthToChunkPartLength cpt chunkLength + SFSBLOCKSIZE - 1) / SFSBLOCKSIZE =
          getNumberOfBlocks cpt blocks) ∧
      (dataParts type).map (fun part => getDataPartIndex ⟨type, part⟩) = List.range k ∧
      ((dataParts type).map fun part => chunkLengthToChunkPartLength ⟨type, part⟩ chunkLength).sum = chunkLength ∧
      ((dataParts type).map fun part => getNumberOfBlocks ⟨type, part⟩ blocks).sum = blocks := by
  intro k blocks
  have positive : 0 < SFSBLOCKSIZE := by
    unfold SFSBLOCKSIZE
    omega
  refine ⟨fun part valid => ?_, dataParts_index type, ?_, ?_⟩
  · intro cpt index
    have inStripes : index < k := @dataPartIndex_lt cpt valid
    have bytes := @chunkLengthToChunkPartLength_eq_held cpt valid chunkLength
    have units := @getNumberOfBlocks_eq_held cpt valid blocks
    refine ⟨inStripes, bytes, units, ?_, ?_, ?_⟩
    · rw [bytes]
      exact Striping.held_le_held_zero positive inStripes chunkLength
    · rw [units]
      exact Striping.held_le_held_zero Nat.one_pos inStripes blocks
    · rw [bytes, units]
      exact Striping.ceil_held positive inStripes chunkLength
  · -- each data part holds its stripe of the bytes
    rw [sum_dataParts (fun index => Striping.held SFSBLOCKSIZE k index chunkLength) fun part member => ?_]
    · exact Striping.sum_held _ _ _ (getNumberOfDataParts_pos type)
    · obtain ⟨valid, data⟩ := mem_dataParts member
      rw [@chunkLengthToChunkPartLength_eq_held ⟨type, part⟩ valid, if_pos data]
  · -- and its stripe of the blocks
    rw [sum_dataParts (fun index => Striping.held 1 k index blocks) fun part member => ?_]
    · exact Striping.sum_held _ _ _ (getNumberOfDataParts_pos type)
    · obtain ⟨valid, data⟩ := mem_dataParts member
      rw [@getNumberOfBlocks_eq_held ⟨type, part⟩ valid, if_pos data]

end SliceTraits

end SaunaFS
