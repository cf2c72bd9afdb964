import SaunaFS.Common.Goal
import SaunaFS.Lib.ByteFile
import SaunaFS.Lib.Checksum

/-! Chunk parts on a conventional (CMR) disk and the chunkserver operations that
rewrite their blocks (`src/chunkserver/chunkserver-common/cmr_disk.cc`,
`src/chunkserver/hddspacemgr.cc`, `src/common/crc.h`).

A part is its data file, one `SFSBLOCKSIZE` block after another, and the CRC
entries of its open chunk (`OpenChunk::crcData`), one for each block. The
metadata header keeps the first `maxBlocksInFile` entries: `chunkWriteCrc`
writes that many, `hddIOBegin` reads that many back, and
`hddInternalDuplicateTruncate` builds the new part's header and copies that many
into its container. The CRC functions of `crc.h` are parameters. The disk does
not fail: the branches that report an I/O error are left out, and every read
stays inside its file.
-/

set_option autoImplicit false

namespace SaunaFS

namespace Chunkserver

def SFSBLOCKSIZE : Nat := 0x10000
def SFSBLOCKSINCHUNK : Nat := 0x400
def SFSCHUNKSIZE : Nat := SFSBLOCKSIZE * SFSBLOCKSINCHUNK

/-- The CRC functions of `crc.h`: `mycrc32(crc, block, leng)` over the `leng`
bytes of `block`, and `mycrc32_combine(crc1, crc2, leng2)`. -/
structure Crc where
  mycrc32 : UInt32 → List UInt8 → UInt32
  mycrc32_combine : UInt32 → UInt32 → Nat → UInt32

namespace Crc

variable (f : Crc)

/-- `mycrc32_zeroblock(crc, zeros)`. -/
def mycrc32_zeroblock (crc : UInt32) (zeros : Nat) : UInt32 :=
  f.mycrc32_combine (crc ^^^ 0xFFFFFFFF) 0xFFFFFFFF zeros

/-- `mycrc32_zeroexpanded(crc, block, leng, zeros)`. -/
def mycrc32_zeroexpanded (crc : UInt32) (block : List UInt8) (zeros : Nat) : UInt32 :=
  f.mycrc32_zeroblock (f.mycrc32 crc block) zeros

/-- The CRC-32 laws, for CRCs started from `0` as every call here starts them. -/
def Lawful : Prop := Checksum.Laws (f.mycrc32 0) f.mycrc32_combine f.mycrc32_zeroblock

end Crc

/-- `gEmptyBlockCrc` (`initializeEmptyBlockCrcForDisks`): the CRC of a block of zeros. -/
def gEmptyBlockCrc (f : Crc) : UInt32 := f.mycrc32_zeroblock 0 SFSBLOCKSIZE

/-- `ChunkPartType`: the slice type and the index of the part in the slice. -/
structure ChunkPartType where
  sliceType : SliceType
  slicePart : Nat
  deriving DecidableEq

/-- `FDChunk::maxBlocksInFile`: a part holds its share of a chunk's blocks. -/
def maxBlocksInFile (type : ChunkPartType) : Nat :=
  let dataPartCount := SliceTraits.getNumberOfDataParts type.sliceType
  (SFSBLOCKSINCHUNK + dataPartCount - 1) / dataPartCount

/-- The `SAUNAFS_ERROR_*` codes of these operations. -/
inductive HddError where
  | eWrongVersion
  | eBnumTooBig
  | eWrongSize
  | eWrongOffset
  | eCrc
  | eNoChunk
  | eChunkExist
  deriving DecidableEq, Repr

/-- A chunk part: what `IChunk` keeps of it (type, version, number of blocks),
its data file and the CRC entries of the open chunk. -/
structure ChunkPart where
  type : ChunkPartType
  version : UInt32
  blocks : Nat
  data : ByteFile
  crcData : Nat → UInt32

/-- The loops that copy `gEmptyBlockCrc` into the entries `first` to `last - 1`. -/
def fillEmptyCrc (f : Crc) (entries : Nat → UInt32) (first last b : Nat) : UInt32 :=
  if first ≤ b ∧ b < last then gEmptyBlockCrc f else entries b

/-- A zeroed CRC container into which the `getCrcBlockSize()` bytes of a header
of a part of type `type` are copied. -/
def crcArea (type : ChunkPartType) (entries : Nat → UInt32) (b : Nat) : UInt32 :=
  if b < maxBlocksInFile type then entries b else 0

namespace ChunkPart

/-- Block `b` of the data file, from `getBlockOffset(b)`. -/
def block (chunk : ChunkPart) (b : Nat) : List UInt8 := chunk.data.pread (b * SFSBLOCKSIZE) SFSBLOCKSIZE

/-- `CmrDisk::writePartialBlockAndCrc`: the bytes at `offsetInBlock` of block
`blockNum`, and its CRC entry. -/
def writePartialBlockAndCrc (chunk : ChunkPart) (buffer : List UInt8) (offsetInBlock : Nat) (crc : UInt32)
    (blockNum : Nat) : ChunkPart :=
  { chunk with
    data := chunk.data.pwrite (blockNum * SFSBLOCKSIZE + offsetInBlock) buffer
    crcData := Function.update chunk.crcData blockNum crc }

/-- `setBlocks(blocknum + 1)` for a block past the end, the blocks between the old
end and `blocknum` getting the empty block's CRC. -/
def setBlocksTo (f : Crc) (chunk : ChunkPart) (blocknum : Nat) : ChunkPart :=
  { chunk with blocks := blocknum + 1, crcData := fillEmptyCrc f chunk.crcData chunk.blocks blocknum }

end ChunkPart

open ChunkPart

/-- How `writeChunkBlock` joins the CRCs of the bytes before `offsetInBlock`, of
the `size` bytes there and of the bytes after them into the CRC of the block. It
does so twice: to check the stored CRC, and to make the new one. -/
def combinedCrc (f : Crc) (offsetInBlock size : Nat) (preCrc chcrc postCrc : UInt32) : UInt32 :=
  if offsetInBlock = 0 then f.mycrc32_combine chcrc postCrc (SFSBLOCKSIZE - (offsetInBlock + size))
  else
    let combined := f.mycrc32_combine preCrc chcrc size
    if offsetInBlock + size < SFSBLOCKSIZE then
      f.mycrc32_combine combined postCrc (SFSBLOCKSIZE - (offsetInBlock + size))
    else combined

/-- `CmrDisk::writeChunkBlock`: `buffer`, its `size` bytes, at `offsetInBlock` of
block `blocknum`, `crc` being the caller's CRC of the buffer. -/
def writeChunkBlock (f : Crc) (gCheckCrcWhenWriting : Bool) (chunk : ChunkPart) (version : UInt32)
    (blocknum offsetInBlock : Nat) (crc : UInt32) (buffer : List UInt8) : Except HddError ChunkPart :=
  let size := buffer.length
  if chunk.version ≠ version ∧ 0 < version then .error .eWrongVersion
  else if maxBlocksInFile chunk.type ≤ blocknum then .error .eBnumTooBig
  else if SFSBLOCKSIZE < size then .error .eWrongSize
  else if SFSBLOCKSIZE ≤ offsetInBlock ∨ SFSBLOCKSIZE < offsetInBlock + size then .error .eWrongOffset
  else if gCheckCrcWhenWriting ∧ crc ≠ f.mycrc32 0 buffer then .error .eCrc
  else if offsetInBlock = 0 ∧ size = SFSBLOCKSIZE then
    -- a complete block
    let chunk := if chunk.blocks ≤ blocknum then chunk.setBlocksTo f blocknum else chunk
    .ok (chunk.writePartialBlockAndCrc buffer 0 crc blocknum)
  else if blocknum < chunk.blocks then
    -- an existing block: the CRCs of its three pieces must combine into the stored one
    let old := chunk.block blocknum
    let preCrc := f.mycrc32 0 (old.take offsetInBlock)
    let chcrc := f.mycrc32 0 ((old.drop offsetInBlock).take size)
    let postCrc := f.mycrc32 0 (old.drop (offsetInBlock + size))
    if chunk.crcData blocknum ≠ combinedCrc f offsetInBlock size preCrc chcrc postCrc then .error .eCrc
    else
      .ok (chunk.writePartialBlockAndCrc buffer offsetInBlock
        (combinedCrc f offsetInBlock size preCrc crc postCrc) blocknum)
  else
    -- a new block past the end, over the zeros of the grown file
    let chunk := { chunk with data := chunk.data.ftruncate ((blocknum + 1) * SFSBLOCKSIZE) }.setBlocksTo f blocknum
    let preCrc := f.mycrc32_zeroblock 0 offsetInBlock
    let postCrc := f.mycrc32_zeroblock 0 (SFSBLOCKSIZE - (offsetInBlock + size))
    .ok (chunk.writePartialBlockAndCrc buffer offsetInBlock (combinedCrc f offsetInBlock size preCrc crc postCrc)
      blocknum)

namespace ChunkPart

/-- Step 2 of `hddInternalTruncate` on a CMR disk: the part cut or grown to
`length`, rounded up to whole blocks. -/
def truncate (f : Crc) (chunk : ChunkPart) (length : Nat) : ChunkPart :=
  let blocks := (length + SFSBLOCKSIZE - 1) / SFSBLOCKSIZE
  if chunk.blocks < blocks then
    -- expanding: the new blocks are zeros, with the empty block's CRC
    { chunk with
      blocks := blocks
      data := chunk.data.ftruncate (blocks * SFSBLOCKSIZE)
      crcData := fillEmptyCrc f chunk.crcData chunk.blocks blocks }
  else
    let fullBlocks := length / SFSBLOCKSIZE
    let lastPartialBlockSize := length - fullBlocks * SFSBLOCKSIZE
    if 0 < lastPartialBlockSize then
      -- the last block keeps its first bytes and reads zeros past them
      let data :=
        (chunk.data.ftruncate (fullBlocks * SFSBLOCKSIZE + lastPartialBlockSize)).ftruncate (blocks * SFSBLOCKSIZE)
      let crc := f.mycrc32_zeroexpanded 0 (data.pread (fullBlocks * SFSBLOCKSIZE) lastPartialBlockSize)
        (SFSBLOCKSIZE - lastPartialBlockSize)
      { chunk with
        blocks := blocks
        data := data
        crcData := fillEmptyCrc f (Function.update chunk.crcData fullBlocks crc) (fullBlocks + 1) chunk.blocks }
    else { chunk with blocks := blocks, data := chunk.data.ftruncate (blocks * SFSBLOCKSIZE) }

/-- The copy loops of `hddInternalDuplicateTruncate`: blocks `0` to `count - 1`
of `source`, written one after another from the start of `target`. -/
def copyBlocks (source : ByteFile) : Nat → ByteFile → ByteFile
  | 0, target => target
  | count + 1, target =>
    (copyBlocks source count target).pwrite (count * SFSBLOCKSIZE) (source.pread (count * SFSBLOCKSIZE) SFSBLOCKSIZE)

/-- The new part of `hddInternalDuplicateTruncate` on a CMR disk: the blocks of
`original` up to `copyChunkLength`, and the CRC entries of the header built for
it, copied into a zeroed container. -/
def duplicateTruncate (f : Crc) (original : ChunkPart) (version : UInt32) (copyChunkLength : Nat) : ChunkPart :=
  let blocks := (copyChunkLength + SFSBLOCKSIZE - 1) / SFSBLOCKSIZE
  -- the new header starts with the original's CRC area
  let headerCrc := crcArea original.type original.crcData
  let part (data : ByteFile) (headerCrc : Nat → UInt32) : ChunkPart :=
    { type := original.type, version, blocks, data, crcData := crcArea original.type headerCrc }
  if original.blocks < blocks then
    part ((copyBlocks original.data original.blocks ByteFile.empty).ftruncate (blocks * SFSBLOCKSIZE))
      (fillEmptyCrc f headerCrc original.blocks blocks)
  else
    let lastBlockSize := copyChunkLength - copyChunkLength / SFSBLOCKSIZE * SFSBLOCKSIZE
    if lastBlockSize = 0 then part (copyBlocks original.data blocks ByteFile.empty) headerCrc
    else
      -- the last block is read whole and written back zero-filled past its kept bytes
      let block := blocks - 1
      let blockBuffer := original.data.pread (block * SFSBLOCKSIZE) SFSBLOCKSIZE
      let crc := f.mycrc32_zeroexpanded 0 (blockBuffer.take lastBlockSize) (SFSBLOCKSIZE - lastBlockSize)
      part ((copyBlocks original.data block ByteFile.empty).pwrite (block * SFSBLOCKSIZE)
          (blockBuffer.take lastBlockSize ++ List.replicate (SFSBLOCKSIZE - lastBlockSize) 0))
        (Function.update headerCrc block crc)

end ChunkPart

/-- The parts the chunkserver holds (`gChunksMap`), by chunk id and part type. -/
structure ChunkMap where
  chunks : UInt64 × ChunkPartType → Option ChunkPart

namespace ChunkMap

def empty : ChunkMap := ⟨fun _ => none⟩

def set (map : ChunkMap) (key : UInt64 × ChunkPartType) (chunk : ChunkPart) : ChunkMap :=
  ⟨Function.update map.chunks key (some chunk)⟩

end ChunkMap

/-- `hddInternalCreate`: a new part with no blocks and a zeroed CRC container. -/
def hddInternalCreate (map : ChunkMap) (chunkId : UInt64) (version : UInt32) (chunkType : ChunkPartType) :
    Except HddError ChunkMap :=
  match map.chunks (chunkId, chunkType) with
  | some _ => .error .eChunkExist
  | none => .ok (map.set (chunkId, chunkType) ⟨chunkType, version, 0, ByteFile.empty, fun _ => 0⟩)

/-- `hddChunkWriteBlock`: `writeChunkBlock` on a part of the map. -/
def hddChunkWriteBlock (f : Crc) (gCheckCrcWhenWriting : Bool) (map : ChunkMap) (chunkId : UInt64)
    (version : UInt32) (chunkType : ChunkPartType) (blocknum offset : Nat) (crc : UInt32) (buffer : List UInt8) :
    Except HddError ChunkMap :=
  match map.chunks (chunkId, chunkType) with
  | none => .error .eNoChunk
  | some chunk =>
    (writeChunkBlock f gCheckCrcWhenWriting chunk version blocknum offset crc buffer).map
      (map.set (chunkId, chunkType))

/-- `hddInternalTruncate`: the part renamed to `newVersion` and truncated. -/
def hddInternalTruncate (f : Crc) (map : ChunkMap) (chunkId : UInt64) (chunkType : ChunkPartType)
    (oldVersion newVersion : UInt32) (length : Nat) : Except HddError ChunkMap :=
  if SFSCHUNKSIZE < length then .error .eWrongSize
  else
    match map.chunks (chunkId, chunkType) with
    | none => .error .eNoChunk
    | some chunk =>
      if chunk.version ≠ oldVersion ∧ 0 < oldVersion then .error .eWrongVersion
      else .ok (map.set (chunkId, chunkType) ({ chunk with version := newVersion }.truncate f length))

/-- `hddInternalDuplicateTruncate`: a new part `copyChunkId` holding the original
truncated to `copyChunkLength`, the original renamed to `chunkNewVersion`. -/
def hddInternalDuplicateTruncate (f : Crc) (map : ChunkMap) (chunkId : UInt64)
    (chunkVersion chunkNewVersion : UInt32) (chunkType : ChunkPartType) (copyChunkId : UInt64)
    (copyChunkVersion : UInt32) (copyChunkLength : Nat) : Except HddError ChunkMap :=
  if SFSCHUNKSIZE < copyChunkLength then .error .eWrongSize
  else
    match map.chunks (chunkId, chunkType) with
    | none => .error .eNoChunk
    | some original =>
      if original.version ≠ chunkVersion ∧ 0 < chunkVersion then .error .eWrongVersion
      else
        let copyChunkVersion := if copyChunkVersion = 0 then chunkNewVersion else copyChunkVersion
        match map.chunks (copyChunkId, chunkType) with
        | some _ => .error .eChunkExist
        | none =>
          let original :=
            if chunkNewVersion ≠ chunkVersion then { original with version := chunkNewVersion } else original
          .ok ((map.set (chunkId, chunkType) original).set (copyChunkId, chunkType)
            (original.duplicateTruncate f copyChunkVersion copyChunkLength))

/-- `hddInternalTestChunk`: every block of the part read back against its CRC entry. -/
def hddInternalTestChunk (f : Crc) (map : ChunkMap) (chunkId : UInt64) (version : UInt32)
    (chunkType : ChunkPartType) : Except HddError Unit :=
  match map.chunks (chunkId, chunkType) with
  | none => .error .eNoChunk
  | some chunk =>
    if chunk.version ≠ version ∧ 0 < version then .error .eWrongVersion
    else if (List.range chunk.blocks).all fun b => chunk.crcData b == f.mycrc32 0 (chunk.block b) then .ok ()
    else .error .eCrc

/-- The requests that reach these functions (`hddChunkOperation`,
`hddChunkWriteBlock`); a block is written with the CRC of its buffer. -/
inductive Command where
  | create (chunkId : UInt64) (version : UInt32) (chunkType : ChunkPartType)
  | writeBlock (chunkId : UInt64) (version : UInt32) (chunkType : ChunkPartType) (blocknum offset : Nat)
      (buffer : List UInt8)
  | truncate (chunkId : UInt64) (chunkType : ChunkPartType) (oldVersion newVersion : UInt32) (length : Nat)
  | duplicateTruncate (chunkId : UInt64) (chunkVersion chunkNewVersion : UInt32) (chunkType : ChunkPartType)
      (copyChunkId : UInt64) (copyChunkVersion : UInt32) (copyChunkLength : Nat)

namespace ChunkMap

/-- One request and what it returns. -/
def run (f : Crc) (gCheckCrcWhenWriting : Bool) (map : ChunkMap) : Command → Except HddError ChunkMap
  | .create chunkId version chunkType => hddInternalCreate map chunkId version chunkType
  | .writeBlock chunkId version chunkType blocknum offset buffer =>
    hddChunkWriteBlock f gCheckCrcWhenWriting map chunkId version chunkType blocknum offset (f.mycrc32 0 buffer) buffer
  | .truncate chunkId chunkType oldVersion newVersion length =>
    hddInternalTruncate f map chunkId chunkType oldVersion newVersion length
  | .duplicateTruncate chunkId chunkVersion chunkNewVersion chunkType copyChunkId copyChunkVersion copyChunkLength =>
    hddInternalDuplicateTruncate f map chunkId chunkVersion chunkNewVersion chunkType copyChunkId copyChunkVersion
      copyChunkLength

/-- The map after a request; a request that fails leaves it as it was. -/
def apply (f : Crc) (gCheckCrcWhenWriting : Bool) (map : ChunkMap) (command : Command) : ChunkMap :=
  match map.run f gCheckCrcWhenWriting command with
  | .ok map' => map'
  | .error _ => map

end ChunkMap

/-- The maps a chunkserver reaches from no parts, one request after another. -/
inductive Reachable (f : Crc) (gCheckCrcWhenWriting : Bool) : ChunkMap → Prop where
  | empty : Reachable f gCheckCrcWhenWriting ChunkMap.empty
  | step {map : ChunkMap} (command : Command) :
      Reachable f gCheckCrcWhenWriting map → Reachable f gCheckCrcWhenWriting (map.apply f gCheckCrcWhenWriting command)

end Chunkserver

end SaunaFS
