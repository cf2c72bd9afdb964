import SaunaFS.Chunkserver.CmrDisk

/-! Every request keeps the CRC entry of each block of a part equal to the CRC of
the block's bytes (`ChunkPart.Consistent`). A block write joins the CRCs of the
pieces of its block by the CRC laws, a truncation recomputes the CRC of the
block it cuts, a duplicate-truncation copies entries with the blocks they
describe, and every entry set to `gEmptyBlockCrc` belongs to a block of zeros.
The entries that survive a reopening are those the header holds, the first
`maxBlocksInFile`; the invariant speaks of those.
-/

set_option autoImplicit false

namespace SaunaFS

namespace Chunkserver

open ByteFile ChunkPart

/-! ## Blocks of a data file -/

/-- Block `b` ends where a later block starts, or before. -/
theorem blockEnd_le {b c : Nat} (before : b < c) : b * SFSBLOCKSIZE + SFSBLOCKSIZE ≤ c * SFSBLOCKSIZE := by
  rw [← Nat.succ_mul]
  exact Nat.mul_le_mul_right _ before

@[simp] theorem length_block (chunk : ChunkPart) (b : Nat) : (chunk.block b).length = SFSBLOCKSIZE := by
  simp [block]

theorem block_writePartialBlockAndCrc_self (chunk : ChunkPart) {buffer : List UInt8} {offsetInBlock : Nat}
    (crc : UInt32) (blockNum : Nat) (fits : offsetInBlock + buffer.length ≤ SFSBLOCKSIZE) :
    (chunk.writePartialBlockAndCrc buffer offsetInBlock crc blockNum).block blockNum =
      (chunk.block blockNum).take offsetInBlock ++ buffer ++
        (chunk.block blockNum).drop (offsetInBlock + buffer.length) :=
  pread_pwrite_inside chunk.data fits

theorem block_writePartialBlockAndCrc_of_ne (chunk : ChunkPart) {buffer : List UInt8} {offsetInBlock : Nat}
    (crc : UInt32) {b blockNum : Nat} (other : b ≠ blockNum) (fits : offsetInBlock + buffer.length ≤ SFSBLOCKSIZE) :
    (chunk.writePartialBlockAndCrc buffer offsetInBlock crc blockNum).block b = chunk.block b := by
  apply pread_pwrite_of_disjoint
  rcases Nat.lt_or_gt_of_ne other with before | after
  · have := blockEnd_le before
    omega
  · have := blockEnd_le after
    omega

theorem block_ftruncate_of_lt (chunk : ChunkPart) {b length : Nat} (inside : b * SFSBLOCKSIZE + SFSBLOCKSIZE ≤ length) :
    { chunk with data := chunk.data.ftruncate length }.block b = chunk.block b :=
  pread_ftruncate_of_le chunk.data inside

/-- The data file of a truncation with a partial last block, cut to the length and
grown back to whole blocks: the blocks before are kept, and the last one is its
kept bytes followed by zeros. -/
theorem pread_cut (data : ByteFile) (full : Nat) {lastPartial : Nat} (partialLt : lastPartial < SFSBLOCKSIZE) :
    let cut := (data.ftruncate (full * SFSBLOCKSIZE + lastPartial)).ftruncate ((full + 1) * SFSBLOCKSIZE)
    (∀ b < full, cut.pread (b * SFSBLOCKSIZE) SFSBLOCKSIZE = data.pread (b * SFSBLOCKSIZE) SFSBLOCKSIZE) ∧
      cut.pread (full * SFSBLOCKSIZE) lastPartial = data.pread (full * SFSBLOCKSIZE) lastPartial ∧
      cut.pread (full * SFSBLOCKSIZE) SFSBLOCKSIZE =
        data.pread (full * SFSBLOCKSIZE) lastPartial ++ List.replicate (SFSBLOCKSIZE - lastPartial) 0 := by
  intro cut
  have lastEnd : full * SFSBLOCKSIZE + SFSBLOCKSIZE ≤ (full + 1) * SFSBLOCKSIZE := by rw [Nat.succ_mul]
  refine ⟨fun b earlier => ?_, ?_, ?_⟩
  · have := blockEnd_le earlier
    rw [pread_ftruncate_of_le _ (by omega), pread_ftruncate_of_le _ (by omega)]
  · rw [pread_ftruncate_of_le _ (by omega), pread_ftruncate_of_le _ (Nat.le_refl _)]
  · rw [pread_ftruncate_of_le _ lastEnd, pread_ftruncate_inside _ (Nat.le_of_lt partialLt)]

theorem size_copyBlocks (source : ByteFile) :
    ∀ count, (copyBlocks source count ByteFile.empty).size = count * SFSBLOCKSIZE
  | 0 => rfl
  | count + 1 => by
    rw [copyBlocks, size_pwrite, size_copyBlocks source count, length_pread, Nat.succ_mul, Nat.max_eq_right]
    exact Nat.le_add_right _ _

/-- The copy holds the source's first `count` blocks. -/
theorem pread_copyBlocks (source : ByteFile) :
    ∀ count, ∀ b < count, (copyBlocks source count ByteFile.empty).pread (b * SFSBLOCKSIZE) SFSBLOCKSIZE =
      source.pread (b * SFSBLOCKSIZE) SFSBLOCKSIZE
  | 0, _, below => absurd below (Nat.not_lt_zero _)
  | count + 1, b, below => by
    rw [copyBlocks]
    rcases Nat.lt_succ_iff_lt_or_eq.mp below with earlier | rfl
    · rw [pread_pwrite_of_disjoint _ (Or.inl (blockEnd_le earlier))]
      exact pread_copyBlocks source count b earlier
    · have readBack := pread_pwrite_self (copyBlocks source b ByteFile.empty) (b * SFSBLOCKSIZE)
        (source.pread (b * SFSBLOCKSIZE) SFSBLOCKSIZE)
      rwa [length_pread] at readBack

/-! ## Arithmetic of block counts -/

theorem maxBlocksInFile_le (type : ChunkPartType) : maxBlocksInFile type ≤ SFSBLOCKSINCHUNK := by
  unfold maxBlocksInFile
  dsimp only
  rcases Nat.eq_zero_or_pos (SliceTraits.getNumberOfDataParts type.sliceType) with none | some
  · rw [none, Nat.div_zero]
    exact Nat.zero_le _
  · exact Nat.div_le_of_le_mul (by unfold SFSBLOCKSINCHUNK; omega)

theorem maxBlocksInFile_of_isStandard {type : ChunkPartType} (standard : SliceTraits.isStandard type.sliceType) :
    maxBlocksInFile type = SFSBLOCKSINCHUNK := by
  have value : type.sliceType.value = SliceType.kStandard := by simpa [SliceTraits.isStandard] using standard
  simp [maxBlocksInFile, SliceTraits.getNumberOfDataParts, SliceTraits.isXor, SliceTraits.isEC, value,
    SliceType.kStandard, SliceType.kXor2, SliceType.kECFirst]

/-- A length of at most a chunk rounds up to at most `SFSBLOCKSINCHUNK` blocks. -/
theorem blocksOf_le {length : Nat} (bounded : length ≤ SFSCHUNKSIZE) :
    (length + SFSBLOCKSIZE - 1) / SFSBLOCKSIZE ≤ SFSBLOCKSINCHUNK := by
  unfold SFSCHUNKSIZE SFSBLOCKSIZE SFSBLOCKSINCHUNK at *
  omega

/-- A length with a partial last block rounds up to one more than its whole blocks. -/
theorem blocksOf_of_partialBlock {length : Nat} (lastPartial : 0 < length - length / SFSBLOCKSIZE * SFSBLOCKSIZE) :
    (length + SFSBLOCKSIZE - 1) / SFSBLOCKSIZE = length / SFSBLOCKSIZE + 1 := by
  unfold SFSBLOCKSIZE at *
  omega

theorem blocksOf_of_whole {length : Nat} (whole : ¬0 < length - length / SFSBLOCKSIZE * SFSBLOCKSIZE) :
    (length + SFSBLOCKSIZE - 1) / SFSBLOCKSIZE = length / SFSBLOCKSIZE := by
  unfold SFSBLOCKSIZE at *
  omega

theorem partial_lt (length : Nat) : length - length / SFSBLOCKSIZE * SFSBLOCKSIZE < SFSBLOCKSIZE := by
  unfold SFSBLOCKSIZE
  omega

theorem crcArea_of_lt {type : ChunkPartType} {entries : Nat → UInt32} {b : Nat} (inFile : b < maxBlocksInFile type) :
    crcArea type entries b = entries b :=
  if_pos inFile

/-! ## The invariant -/

/-- What every part keeps: its data file is its blocks, of which there are at most
`SFSBLOCKSINCHUNK`, and each block below `maxBlocksInFile` has the CRC of its
bytes as its entry. -/
structure ChunkPart.Consistent (f : Crc) (chunk : ChunkPart) : Prop where
  size_eq : chunk.data.size = chunk.blocks * SFSBLOCKSIZE
  blocks_le : chunk.blocks ≤ SFSBLOCKSINCHUNK
  crc_eq : ∀ b < chunk.blocks, b < maxBlocksInFile chunk.type → chunk.crcData b = f.mycrc32 0 (chunk.block b)

section

variable {f : Crc}

/-- The last step of every path of `writeChunkBlock`: the bytes and the entry of a
block replaced together, the entry being the CRC of the block as written. -/
theorem ChunkPart.Consistent.writePartialBlockAndCrc {chunk : ChunkPart} {buffer : List UInt8} {offsetInBlock blockNum : Nat}
    {crc : UInt32} (fits : offsetInBlock + buffer.length ≤ SFSBLOCKSIZE) (inside : blockNum < chunk.blocks)
    (blocksLe : chunk.blocks ≤ SFSBLOCKSINCHUNK)
    (sized : max chunk.data.size (blockNum * SFSBLOCKSIZE + offsetInBlock + buffer.length) =
      chunk.blocks * SFSBLOCKSIZE)
    (others : ∀ b < chunk.blocks, b ≠ blockNum → b < maxBlocksInFile chunk.type →
      chunk.crcData b = f.mycrc32 0 (chunk.block b))
    (written : crc = f.mycrc32 0 ((chunk.block blockNum).take offsetInBlock ++ buffer ++
      (chunk.block blockNum).drop (offsetInBlock + buffer.length))) :
    (chunk.writePartialBlockAndCrc buffer offsetInBlock crc blockNum).Consistent f where
  size_eq := by
    simp only [ChunkPart.writePartialBlockAndCrc, size_pwrite]
    rw [← sized, Nat.add_assoc]
  blocks_le := blocksLe
  crc_eq b below inFile := by
    by_cases same : b = blockNum
    · subst same
      rw [block_writePartialBlockAndCrc_self _ _ _ fits, ← written]
      simp [ChunkPart.writePartialBlockAndCrc]
    · rw [block_writePartialBlockAndCrc_of_ne _ _ same fits]
      simp only [ChunkPart.writePartialBlockAndCrc, Function.update_of_ne same]
      exact others b below same inFile

/-- The part `hddInternalCreate` makes: no blocks and no bytes. -/
theorem ChunkPart.consistent_created (type : ChunkPartType) (version : UInt32) :
    ChunkPart.Consistent f ⟨type, version, 0, ByteFile.empty, fun _ => 0⟩ :=
  ⟨(Nat.zero_mul _).symm, Nat.zero_le _, fun _ below => absurd below (Nat.not_lt_zero _)⟩

/-- A part renamed to another version is as consistent as it was. -/
theorem ChunkPart.Consistent.withVersion {chunk : ChunkPart} (consistent : chunk.Consistent f) (version : UInt32) :
    ({ chunk with version } : ChunkPart).Consistent f :=
  ⟨consistent.size_eq, consistent.blocks_le, consistent.crc_eq⟩

/-- Every part a map holds is consistent. -/
def ChunkMap.Consistent (f : Crc) (map : ChunkMap) : Prop :=
  ∀ key chunk, map.chunks key = some chunk → chunk.Consistent f

theorem ChunkMap.consistent_empty : ChunkMap.empty.Consistent f :=
  fun _ _ stored => nomatch stored

theorem ChunkMap.Consistent.set {map : ChunkMap} (consistent : map.Consistent f) {key : UInt64 × ChunkPartType}
    {chunk : ChunkPart} (fresh : chunk.Consistent f) : (map.set key chunk).Consistent f := by
  intro key' chunk' stored
  unfold ChunkMap.set at stored
  dsimp only at stored
  by_cases same : key' = key
  · subst same
    rw [Function.update_self, Option.some.injEq] at stored
    exact stored ▸ fresh
  · rw [Function.update_of_ne same] at stored
    exact consistent key' chunk' stored

section Lawful

variable (lawful : f.Lawful)
include lawful

theorem gEmptyBlockCrc_eq : gEmptyBlockCrc f = f.mycrc32 0 (List.replicate SFSBLOCKSIZE 0) :=
  lawful.zeroblock_zero SFSBLOCKSIZE

/-- An entry among those filled with the empty block's CRC is right when its block
is zeros; the others are what they were. -/
theorem fillEmptyCrc_eq {entries : Nat → UInt32} {first last b : Nat} {bytes : List UInt8}
    (kept : ¬(first ≤ b ∧ b < last) → entries b = f.mycrc32 0 bytes)
    (zeros : first ≤ b ∧ b < last → bytes = List.replicate SFSBLOCKSIZE 0) :
    fillEmptyCrc f entries first last b = f.mycrc32 0 bytes := by
  unfold fillEmptyCrc
  split
  · rename_i gap
    rw [zeros gap, gEmptyBlockCrc_eq lawful]
  · rename_i outside
    exact kept outside

/-- `combinedCrc` is the CRC of the block the three pieces make. -/
theorem combinedCrc_eq {offsetInBlock size : Nat} {pre mid post : List UInt8}
    (preLength : pre.length = offsetInBlock) (midLength : mid.length = size)
    (postLength : post.length = SFSBLOCKSIZE - (offsetInBlock + size)) (fits : offsetInBlock + size ≤ SFSBLOCKSIZE) :
    combinedCrc f offsetInBlock size (f.mycrc32 0 pre) (f.mycrc32 0 mid) (f.mycrc32 0 post) =
      f.mycrc32 0 (pre ++ mid ++ post) := by
  unfold combinedCrc
  split
  · -- nothing before the written bytes
    rw [List.eq_nil_of_length_eq_zero (by omega : pre.length = 0), ← postLength, lawful.combine_crc,
      List.nil_append]
  · dsimp only
    split
    · rw [← postLength, ← midLength, lawful.combine_crc, lawful.combine_crc]
    · -- nothing after them
      rw [← midLength, lawful.combine_crc, List.eq_nil_of_length_eq_zero (by omega : post.length = 0),
        List.append_nil]

/-- The blocks a write moves the end over: zeros, with the empty block's CRC. -/
theorem ChunkPart.Consistent.setBlocksTo {chunk : ChunkPart} (consistent : chunk.Consistent f) {blocknum : Nat}
    {data : ByteFile} (kept : ∀ b < chunk.blocks, data.pread (b * SFSBLOCKSIZE) SFSBLOCKSIZE = chunk.block b)
    (zeros : ∀ b, chunk.blocks ≤ b → data.pread (b * SFSBLOCKSIZE) SFSBLOCKSIZE = List.replicate SFSBLOCKSIZE 0) :
    ∀ b < blocknum + 1, b ≠ blocknum → b < maxBlocksInFile chunk.type →
      ({ chunk with data }.setBlocksTo f blocknum).crcData b =
        f.mycrc32 0 (({ chunk with data }.setBlocksTo f blocknum).block b) := by
  intro b _ _ inFile
  apply fillEmptyCrc_eq lawful
  · intro outside
    dsimp only at outside
    have old : b < chunk.blocks := by omega
    rw [consistent.crc_eq b old inFile]
    exact congrArg _ (kept b old).symm
  · intro gap
    exact zeros b gap.1

/-! ## Block writes -/

/-- A complete block: written over the old one, or past the end with the blocks
between read as zeros. -/
theorem ChunkPart.Consistent.writeComplete {chunk : ChunkPart} (consistent : chunk.Consistent f) {blocknum : Nat}
    {buffer : List UInt8} (complete : buffer.length = SFSBLOCKSIZE) (blocksLe : blocknum + 1 ≤ SFSBLOCKSINCHUNK) :
    ((if chunk.blocks ≤ blocknum then chunk.setBlocksTo f blocknum else chunk).writePartialBlockAndCrc buffer 0
      (f.mycrc32 0 buffer) blocknum).Consistent f := by
  have fits : 0 + buffer.length ≤ SFSBLOCKSIZE := by omega
  -- the whole block is the buffer
  have whole (old : List UInt8) (oldLength : old.length = SFSBLOCKSIZE) :
      f.mycrc32 0 buffer = f.mycrc32 0 (old.take 0 ++ buffer ++ old.drop (0 + buffer.length)) := by
    rw [List.take_zero, List.drop_eq_nil_of_le (by omega), List.nil_append, List.append_nil]
  split
  · rename_i grown
    apply Consistent.writePartialBlockAndCrc fits (Nat.lt_succ_self _) blocksLe
    · have below := Nat.mul_le_mul_right SFSBLOCKSIZE grown
      simp only [ChunkPart.setBlocksTo, consistent.size_eq, Nat.succ_mul]
      omega
    · refine consistent.setBlocksTo lawful (fun _ _ => rfl) fun b past => pread_of_size_le _ _ ?_
      rw [consistent.size_eq]
      exact Nat.mul_le_mul_right _ past
    · exact whole _ (length_block _ _)
  · rename_i existing
    have inside : blocknum < chunk.blocks := by omega
    apply Consistent.writePartialBlockAndCrc fits inside consistent.blocks_le
    · have := blockEnd_le inside
      rw [consistent.size_eq]
      omega
    · exact fun b below _ inFile => consistent.crc_eq b below inFile
    · exact whole _ (length_block _ _)

/-- Part of an existing block: the new entry is the CRC of the block as written. -/
theorem ChunkPart.Consistent.writeExisting {chunk : ChunkPart} (consistent : chunk.Consistent f) {blocknum offsetInBlock : Nat}
    {buffer : List UInt8} (fits : offsetInBlock + buffer.length ≤ SFSBLOCKSIZE) (inside : blocknum < chunk.blocks) :
    let old := chunk.block blocknum
    (chunk.writePartialBlockAndCrc buffer offsetInBlock
      (combinedCrc f offsetInBlock buffer.length (f.mycrc32 0 (old.take offsetInBlock)) (f.mycrc32 0 buffer)
        (f.mycrc32 0 (old.drop (offsetInBlock + buffer.length)))) blocknum).Consistent f := by
  intro old
  apply Consistent.writePartialBlockAndCrc fits inside consistent.blocks_le
  · have := blockEnd_le inside
    rw [consistent.size_eq]
    omega
  · exact fun b below _ inFile => consistent.crc_eq b below inFile
  · exact combinedCrc_eq lawful (by simp [old]; omega) rfl (by simp [old]) fits

/-- Part of a new block past the end: the rest of the block is zeros, and so are
the blocks between. -/
theorem ChunkPart.Consistent.writeNew {chunk : ChunkPart} (consistent : chunk.Consistent f) {blocknum offsetInBlock : Nat}
    {buffer : List UInt8} (fits : offsetInBlock + buffer.length ≤ SFSBLOCKSIZE) (past : chunk.blocks ≤ blocknum)
    (blocksLe : blocknum + 1 ≤ SFSBLOCKSINCHUNK) :
    let chunk' := { chunk with data := chunk.data.ftruncate ((blocknum + 1) * SFSBLOCKSIZE) }.setBlocksTo f blocknum
    (chunk'.writePartialBlockAndCrc buffer offsetInBlock
      (combinedCrc f offsetInBlock buffer.length (f.mycrc32_zeroblock 0 offsetInBlock) (f.mycrc32 0 buffer)
        (f.mycrc32_zeroblock 0 (SFSBLOCKSIZE - (offsetInBlock + buffer.length)))) blocknum).Consistent f := by
  intro chunk'
  have end_le : chunk.data.size ≤ blocknum * SFSBLOCKSIZE := by
    rw [consistent.size_eq]
    exact Nat.mul_le_mul_right _ past
  -- the new block reads zeros before the write
  have zeros : chunk'.block blocknum = List.replicate SFSBLOCKSIZE 0 :=
    pread_ftruncate_of_size_le _ _ _ end_le
  apply Consistent.writePartialBlockAndCrc fits (Nat.lt_succ_self _) blocksLe
  · simp only [chunk', ChunkPart.setBlocksTo, size_ftruncate, Nat.succ_mul]
    omega
  · refine consistent.setBlocksTo lawful (fun b below => ?_) fun b later => pread_ftruncate_of_size_le _ _ _ ?_
    · have := blockEnd_le (Nat.lt_of_lt_of_le below past)
      exact pread_ftruncate_of_le _ (by rw [Nat.succ_mul]; omega)
    · rw [consistent.size_eq]
      exact Nat.mul_le_mul_right _ later
  · rw [zeros, List.take_replicate, List.drop_replicate, Nat.min_eq_left (by omega), lawful.zeroblock_zero,
      lawful.zeroblock_zero]
    exact combinedCrc_eq lawful (by simp) rfl (by simp) fits

/-- `writeChunkBlock` with the CRC of its buffer keeps a part consistent. -/
theorem ChunkPart.Consistent.writeChunkBlock {chunk chunk' : ChunkPart} (consistent : chunk.Consistent f)
    {gCheckCrcWhenWriting : Bool} {version : UInt32} {blocknum offsetInBlock : Nat} {buffer : List UInt8}
    (written : Chunkserver.writeChunkBlock f gCheckCrcWhenWriting chunk version blocknum offsetInBlock
      (f.mycrc32 0 buffer) buffer = .ok chunk') :
    chunk'.Consistent f := by
  unfold Chunkserver.writeChunkBlock at written
  dsimp only at written
  -- each guard that fails returns an error
  split at written
  · cases written
  split at written
  · cases written
  rename_i inFile
  have blocksLe : blocknum + 1 ≤ SFSBLOCKSINCHUNK := by
    have := maxBlocksInFile_le chunk.type
    omega
  split at written
  · cases written
  split at written
  · cases written
  rename_i placed
  have fits : offsetInBlock + buffer.length ≤ SFSBLOCKSIZE := by omega
  split at written
  · cases written
  split at written
  · rename_i complete
    cases written
    exact consistent.writeComplete lawful complete.2 blocksLe
  split at written
  · rename_i inside
    split at written
    · cases written
    cases written
    exact consistent.writeExisting lawful fits inside
  · rename_i past
    cases written
    exact consistent.writeNew lawful fits (by omega) blocksLe

/-! ## Truncation -/

/-- `hddInternalTruncate` to at most a chunk keeps a part consistent. -/
theorem ChunkPart.Consistent.truncate {chunk : ChunkPart} (consistent : chunk.Consistent f) {length : Nat}
    (bounded : length ≤ SFSCHUNKSIZE) : (chunk.truncate f length).Consistent f := by
  unfold ChunkPart.truncate
  dsimp only
  split
  · -- grown: the new blocks are zeros
    rename_i grown
    refine ⟨rfl, blocksOf_le bounded, fun b below inFile => ?_⟩
    dsimp only at below inFile ⊢
    apply fillEmptyCrc_eq lawful
    · intro outside
      have old : b < chunk.blocks := by omega
      have := blockEnd_le (Nat.lt_of_lt_of_le old (Nat.le_of_lt grown))
      rw [consistent.crc_eq b old inFile]
      exact congrArg _ (block_ftruncate_of_lt chunk this).symm
    · intro gap
      refine pread_ftruncate_of_size_le _ _ _ ?_
      rw [consistent.size_eq]
      exact Nat.mul_le_mul_right _ gap.1
  rename_i shrunk
  have blocksLe : (length + SFSBLOCKSIZE - 1) / SFSBLOCKSIZE ≤ SFSBLOCKSINCHUNK :=
    Nat.le_trans (Nat.le_of_not_lt shrunk) consistent.blocks_le
  split
  · -- a partial last block: what is kept of it, then zeros
    rename_i lastPartial
    rw [blocksOf_of_partialBlock lastPartial] at blocksLe shrunk ⊢
    obtain ⟨kept, readPrefix, cut⟩ := pread_cut chunk.data (length / SFSBLOCKSIZE) (partial_lt length)
    refine ⟨rfl, blocksLe, fun b below inFile => ?_⟩
    dsimp only at below inFile ⊢
    refine fillEmptyCrc_eq lawful (fun _ => ?_) fun gap => absurd gap.1 (by omega)
    by_cases last : b = length / SFSBLOCKSIZE
    · -- the cut block: its kept bytes, then zeros
      subst last
      rw [Function.update_self, Crc.mycrc32_zeroexpanded, lawful.zeroblock_crc, readPrefix]
      exact congrArg _ cut.symm
    · have earlier : b < length / SFSBLOCKSIZE := by omega
      rw [Function.update_of_ne last, consistent.crc_eq b (by omega) inFile]
      exact congrArg _ (kept b earlier).symm
  · -- whole blocks only
    rename_i whole
    refine ⟨rfl, blocksLe, fun b below inFile => ?_⟩
    dsimp only at below inFile ⊢
    have := blockEnd_le below
    rw [consistent.crc_eq b (by omega) inFile]
    exact congrArg _ (block_ftruncate_of_lt chunk this).symm

/-! ## Duplicate-truncation -/

/-- The part `hddInternalDuplicateTruncate` makes from a consistent one is consistent. -/
theorem ChunkPart.Consistent.duplicateTruncate {original : ChunkPart} (consistent : original.Consistent f)
    (version : UInt32) {copyChunkLength : Nat} (bounded : copyChunkLength ≤ SFSCHUNKSIZE) :
    (original.duplicateTruncate f version copyChunkLength).Consistent f := by
  unfold ChunkPart.duplicateTruncate
  dsimp only
  have copied (count b : Nat) (below : b < count) (within : count ≤ original.blocks) (inFile : b < maxBlocksInFile original.type) :
      crcArea original.type original.crcData b =
        f.mycrc32 0 ((copyBlocks original.data count ByteFile.empty).pread (b * SFSBLOCKSIZE) SFSBLOCKSIZE) := by
    rw [crcArea_of_lt inFile, pread_copyBlocks _ _ _ below, consistent.crc_eq b (by omega) inFile]
    rfl
  split
  · -- grown: the original's blocks, then zeros
    rename_i grown
    refine ⟨rfl, blocksOf_le bounded, fun b below inFile => ?_⟩
    dsimp only at below inFile ⊢
    rw [crcArea_of_lt inFile]
    apply fillEmptyCrc_eq lawful
    · intro outside
      have old : b < original.blocks := by omega
      have := blockEnd_le (Nat.lt_of_lt_of_le old (Nat.le_of_lt grown))
      rw [copied original.blocks b old (Nat.le_refl _) inFile]
      exact congrArg _ (pread_ftruncate_of_le _ this).symm
    · intro gap
      exact pread_ftruncate_of_size_le _ _ _ (by rw [size_copyBlocks]; exact Nat.mul_le_mul_right _ gap.1)
  rename_i shrunk
  have blocksLe : (copyChunkLength + SFSBLOCKSIZE - 1) / SFSBLOCKSIZE ≤ SFSBLOCKSINCHUNK :=
    Nat.le_trans (Nat.le_of_not_lt shrunk) consistent.blocks_le
  split
  · -- whole blocks only
    rename_i whole
    refine ⟨size_copyBlocks _ _, blocksLe, fun b below inFile => ?_⟩
    dsimp only at below inFile ⊢
    rw [crcArea_of_lt inFile]
    exact copied _ b below (Nat.le_of_not_lt shrunk) inFile
  · -- a partial last block, read whole and written back zero-filled
    rename_i lastPartial
    have blocksEq := blocksOf_of_partialBlock (Nat.pos_of_ne_zero lastPartial)
    rw [blocksEq] at blocksLe shrunk ⊢
    have partialLt := partial_lt copyChunkLength
    simp only [Nat.add_sub_cancel]
    have bufferLength : ((original.data.pread (copyChunkLength / SFSBLOCKSIZE * SFSBLOCKSIZE) SFSBLOCKSIZE).take
        (copyChunkLength - copyChunkLength / SFSBLOCKSIZE * SFSBLOCKSIZE)).length =
        copyChunkLength - copyChunkLength / SFSBLOCKSIZE * SFSBLOCKSIZE := by
      simp only [List.length_take, length_pread]
      omega
    refine ⟨?_, blocksLe, fun b below inFile => ?_⟩
    · simp only [size_pwrite, size_copyBlocks, List.length_append, bufferLength, List.length_replicate, Nat.succ_mul]
      omega
    dsimp only at below inFile ⊢
    rw [crcArea_of_lt inFile]
    by_cases last : b = copyChunkLength / SFSBLOCKSIZE
    · -- the last block: what was kept of it, then zeros
      subst last
      rw [Function.update_self, Crc.mycrc32_zeroexpanded, lawful.zeroblock_crc]
      have readBack := pread_pwrite_self (copyBlocks original.data (copyChunkLength / SFSBLOCKSIZE) ByteFile.empty)
        (copyChunkLength / SFSBLOCKSIZE * SFSBLOCKSIZE)
        ((original.data.pread (copyChunkLength / SFSBLOCKSIZE * SFSBLOCKSIZE) SFSBLOCKSIZE).take
          (copyChunkLength - copyChunkLength / SFSBLOCKSIZE * SFSBLOCKSIZE) ++
          List.replicate (SFSBLOCKSIZE - (copyChunkLength - copyChunkLength / SFSBLOCKSIZE * SFSBLOCKSIZE)) 0)
      rw [List.length_append, bufferLength, List.length_replicate, Nat.add_sub_cancel' (Nat.le_of_lt partialLt)]
        at readBack
      exact congrArg _ readBack.symm
    · have earlier : b < copyChunkLength / SFSBLOCKSIZE := by omega
      rw [Function.update_of_ne last, copied _ b earlier (by omega) inFile]
      exact congrArg _ (pread_pwrite_of_disjoint _ (Or.inl (blockEnd_le earlier))).symm

/-! ## Runs -/

/-- Every request that succeeds keeps every part of the map consistent. -/
theorem ChunkMap.Consistent.run {gCheckCrcWhenWriting : Bool} {map map' : ChunkMap} (consistent : map.Consistent f)
    {command : Command} (ran : map.run f gCheckCrcWhenWriting command = .ok map') : map'.Consistent f := by
  cases command with
  | create chunkId version chunkType =>
    rw [ChunkMap.run, hddInternalCreate] at ran
    split at ran
    · cases ran
    cases ran
    exact consistent.set (ChunkPart.consistent_created chunkType version)
  | writeBlock chunkId version chunkType blocknum offset buffer =>
    rw [ChunkMap.run, hddChunkWriteBlock] at ran
    split at ran
    · cases ran
    rename_i chunk stored
    cases written : writeChunkBlock f gCheckCrcWhenWriting chunk version blocknum offset (f.mycrc32 0 buffer) buffer with
    | error _ =>
      rw [written] at ran
      cases ran
    | ok chunk' =>
      rw [written] at ran
      cases ran
      exact consistent.set ((consistent _ _ stored).writeChunkBlock lawful written)
  | truncate chunkId chunkType oldVersion newVersion length =>
    rw [ChunkMap.run, hddInternalTruncate] at ran
    split at ran
    · cases ran
    rename_i bounded
    split at ran
    · cases ran
    rename_i chunk stored
    split at ran
    · cases ran
    cases ran
    exact consistent.set (((consistent _ _ stored).withVersion newVersion).truncate lawful (Nat.le_of_not_lt bounded))
  | duplicateTruncate chunkId chunkVersion chunkNewVersion chunkType copyChunkId copyChunkVersion copyChunkLength =>
    rw [ChunkMap.run, hddInternalDuplicateTruncate] at ran
    split at ran
    · cases ran
    rename_i bounded
    split at ran
    · cases ran
    rename_i original stored
    split at ran
    · cases ran
    dsimp only at ran
    split at ran
    · cases ran
    cases ran
    -- the original, renamed or not, is stored back beside its copy
    have renamed : (if chunkNewVersion ≠ chunkVersion then { original with version := chunkNewVersion }
        else original).Consistent f := by
      split
      · exact (consistent _ _ stored).withVersion chunkNewVersion
      · exact consistent _ _ stored
    exact (consistent.set renamed).set (renamed.duplicateTruncate lawful _ (Nat.le_of_not_lt bounded))

/-- Every map a chunkserver reaches holds only consistent parts. -/
theorem Reachable.consistent {gCheckCrcWhenWriting : Bool} {map : ChunkMap}
    (reachable : Reachable f gCheckCrcWhenWriting map) : map.Consistent f := by
  induction reachable with
  | empty => exact ChunkMap.consistent_empty
  | step command _ consistent =>
    unfold ChunkMap.apply
    split
    · rename_i ran
      exact consistent.run lawful ran
    · exact consistent

end Lawful

end

/-! ## Stored CRCs -/

/-- On a part whose blocks all have entries, `hddInternalTestChunk` finds every
CRC right. -/
theorem hddInternalTestChunk_ok {f : Crc} (lawful : f.Lawful) {gCheckCrcWhenWriting : Bool} {map : ChunkMap}
    (reachable : Reachable f gCheckCrcWhenWriting map) {chunkId : UInt64} {version : UInt32}
    {chunkType : ChunkPartType} {chunk : ChunkPart} (stored : map.chunks (chunkId, chunkType) = some chunk)
    (standard : SliceTraits.isStandard chunk.type.sliceType) (current : chunk.version = version ∨ version = 0) :
    hddInternalTestChunk f map chunkId version chunkType = .ok () := by
  have consistent := reachable.consistent lawful _ _ stored
  have versionOk : ¬(chunk.version ≠ version ∧ 0 < version) := by
    rintro ⟨differs, positive⟩
    rcases current with same | zero
    · exact differs same
    · subst zero
      exact absurd positive (by decide)
  unfold hddInternalTestChunk
  rw [stored]
  dsimp only
  rw [if_neg versionOk, if_pos]
  rw [List.all_eq_true]
  intro b member
  have below := List.mem_range.mp member
  have inFile : b < maxBlocksInFile chunk.type := by
    rw [maxBlocksInFile_of_isStandard standard]
    exact Nat.lt_of_lt_of_le below consistent.blocks_le
  exact beq_iff_eq.mpr (consistent.crc_eq b below inFile)

end Chunkserver

end SaunaFS
