import SaunaFS.Common.SliceTraits
import SaunaFS.Lib.Numeral

/-! Chunk part file names (src/chunkserver/chunkserver-common/chunk_with_fd.cc,
src/chunkserver/chunk_filename_parser.cc, src/common/parser.{h,cc}).

`FDChunk::generateFilenameForVersion` names a part `chunk_`, then its type
(`xor_parity_of_L_`, `xor_P_of_L_`, `ec2_I_of_K_M_` with the part index `I` from
one, nothing for a standard part), then the chunk id in 16 and the version in 8
upper-case hex digits, then the extension. `ChunkFilenameParser::parse` reads
such a name with `Parser`, whose `consume` calls take a string, a character
class (the longest run of it) or a count; a name is a list of characters, and
the parser's state is what is left of it. Every failure of a `consume`, and every
exception of the parser (`std::out_of_range` from `data_.at` or `std::stoull`),
ends in `ERROR_INVALID_FILENAME`, which is `none` here.

Numbers are read with `std::stoull` and converted to the type asked for: the
decimal fields to `int`, which keeps the value modulo `2^32` (`Int.bmod`).
`getDecValue` tests the first character of the whole name for a minus sign;
that character is the `c` of `chunk_`, so the model reads every number unsigned.
The constructors of chunk part types assert their arguments; the model builds no
type outside them.
-/

set_option autoImplicit false

namespace SaunaFS

open Chunkserver SliceTraits Numeral

namespace ChunkFilename

def CHUNK_METADATA_FILE_EXTENSION : List Char := ".met".toList
def CHUNK_DATA_FILE_EXTENSION : List Char := ".dat".toList

def kChunkIdStringSize : Nat := 16
def kChunkVersionStringSize : Nat := 8

/-- `xors::getXorPart`. -/
def getXorPart (cpt : ChunkPartType) : Nat := cpt.slicePart

/-- `FDChunk::generateFilenameForVersion(version, isForMetadata)` of the part
`type_` of chunk `id_`. -/
def generateFilenameForVersion (type_ : ChunkPartType) (id_ : UInt64) (version : UInt32) (isForMetadata : Bool) :
    List Char :=
  "chunk_".toList ++
    (if isXor type_.sliceType then
      (if xors.isXorParity type_ then "xor_parity_of_".toList
        else "xor_".toList ++ numeral 10 (getXorPart type_) ++ "_of_".toList) ++
        numeral 10 (getXorLevel type_.sliceType) ++ ['_']
    else []) ++
    (if isEC type_.sliceType then
      "ec2_".toList ++ numeral 10 (type_.slicePart + 1) ++ "_of_".toList ++
        numeral 10 (getNumberOfDataParts type_.sliceType) ++ ['_'] ++
        numeral 10 (getNumberOfParityParts type_.sliceType) ++ ['_']
    else []) ++
    padded 16 (numeral 16 id_.toNat) ++ ['_'] ++ padded 8 (numeral 16 version.toNat) ++
    (if isForMetadata then CHUNK_METADATA_FILE_EXTENSION else CHUNK_DATA_FILE_EXTENSION)

/-! ## The parser -/

/-- `Parser::consume(const std::string&)`: what is left after `token`, if the
rest starts with it (`checkState` fails on an empty rest). -/
def consumeString (token rest : List Char) : Option (List Char) :=
  if rest = [] then none
  else if token.isPrefixOf rest then some (rest.drop token.length)
  else none

/-- `Parser::consume(TypeCheckFunction)`: the longest nonempty run of characters
that `checkType` accepts, and what is left. A run to the end of the name makes
`data_.at` throw. -/
def consumeWhile (checkType : Char → Bool) (rest : List Char) : Option (List Char × List Char) :=
  if rest = [] then none
  else
    let run := rest.takeWhile checkType
    if run = [] then none
    else if run.length = rest.length then none
    else some (run, rest.drop run.length)

/-- `getDecValue<int>()` of a run of digits: `std::stoull`, which throws above
`2^64 - 1`, then converted to `int`. -/
def getDecValue (run : List Char) : Option Int :=
  let v := value 10 run
  if v < 2 ^ 64 then some (Int.bmod v (2 ^ 32)) else none

/-- `getHexValue<T>()` of a run of hex digits, for `T` of `size` bytes: longer
runs throw, and so does `std::stoull` above `2^64 - 1`. The conversion to `T` is
left to the caller. -/
def getHexValue (size : Nat) (run : List Char) : Option Nat :=
  if run.length / 2 > size then none
  else
    let v := value 16 run
    if v < 2 ^ 64 then some v else none

/-- `isUpperCaseHexDigit`. -/
def isUpperCaseHexDigit (c : Char) : Bool := c.isDigit || ('A' ≤ c && c ≤ 'F')

/-- `standard::ChunkPartType()`. -/
def standard.chunkPartType : ChunkPartType := ⟨⟨SliceType.kStandard, by decide⟩, 0⟩

/-- `xors::ChunkPartType(level, part)`, within its asserts. -/
def xors.chunkPartType (level part : Int) : Option ChunkPartType :=
  if valid : 2 ≤ level ∧ level ≤ 9 ∧ 0 ≤ part ∧ part ≤ level then
    some ⟨⟨(level - 2 + SliceType.kXor2).toNat, by simp only [SliceType.kXor2]; omega⟩, part.toNat⟩
  else none

/-- `ec::ChunkPartType(data_count, parity_count, part)`, within its asserts and
those of `::ChunkPartType(type, part)` (`0 <= part < kMaxPartsCount = 64`). -/
def ec.chunkPartType (dataCount parityCount part : Int) : Option ChunkPartType :=
  if valid : 2 ≤ dataCount ∧ dataCount ≤ 32 ∧ 1 ≤ parityCount ∧ parityCount ≤ 32 ∧ 0 ≤ part ∧ part < 64 then
    some ⟨⟨(32 * (dataCount - 2) + (parityCount - 1) + SliceType.kECFirst).toNat,
      by simp only [SliceType.kECFirst]; omega⟩, part.toNat⟩
  else none

/-- `ChunkFilenameParser::parseECChunkType`. -/
def parseECChunkType (rest : List Char) : Option (ChunkPartType × List Char) := do
  if (consumeString ['0'] rest).isSome then failure
  let (run, rest) ← consumeWhile Char.isDigit rest
  let partIndex := (← getDecValue run) - 1
  let rest ← consumeString "_of_".toList rest
  if (consumeString ['0'] rest).isSome then failure
  let (run, rest) ← consumeWhile Char.isDigit rest
  let dataPartCount ← getDecValue run
  if dataPartCount < 2 ∨ dataPartCount > 32 then failure
  let rest ← consumeString ['_'] rest
  if (consumeString ['0'] rest).isSome then failure
  let (run, rest) ← consumeWhile Char.isDigit rest
  let parityPartCount ← getDecValue run
  if parityPartCount < 1 ∨ parityPartCount > 32 then failure
  let rest ← consumeString ['_'] rest
  if partIndex ≥ dataPartCount + parityPartCount then failure
  let chunkType ← ec.chunkPartType dataPartCount parityPartCount partIndex
  pure (chunkType, rest)

/-- `ChunkFilenameParser::parseXorChunkType`. -/
def parseXorChunkType (rest : List Char) : Option (ChunkPartType × List Char) :=
  match consumeString "parity_of_".toList rest with
  | some rest => do
    if (consumeString ['0'] rest).isSome then failure
    let (run, rest) ← consumeWhile Char.isDigit rest
    if run.length > 2 then failure
    let xorLevel ← getDecValue run
    if xorLevel < 2 ∨ xorLevel > 9 then failure
    let rest ← consumeString ['_'] rest
    let chunkType ← xors.chunkPartType xorLevel xors.kXorParityPart
    pure (chunkType, rest)
  | none => do
    if (consumeString ['0'] rest).isSome then failure
    let (run, rest) ← consumeWhile Char.isDigit rest
    if run.length > 2 then failure
    let xorPart ← getDecValue run
    if xorPart < 1 then failure
    let rest ← consumeString "_of_".toList rest
    if (consumeString ['0'] rest).isSome then failure
    let (run, rest) ← consumeWhile Char.isDigit rest
    if run.length > 2 then failure
    let xorLevel ← getDecValue run
    if xorLevel < 2 ∨ xorLevel > 9 ∨ xorPart > xorLevel then failure
    let rest ← consumeString ['_'] rest
    let chunkType ← xors.chunkPartType xorLevel xorPart
    pure (chunkType, rest)

/-- `ChunkFilenameParser::parseChunkType`: `ec2_` and the older `ec_` name the
same types. -/
def parseChunkType (rest : List Char) : Option (ChunkPartType × List Char) :=
  match consumeString "ec2_".toList rest with
  | some rest => parseECChunkType rest
  | none =>
    match consumeString "ec_".toList rest with
    | some rest => parseECChunkType rest
    | none =>
      match consumeString "xor_".toList rest with
      | some rest => parseXorChunkType rest
      | none => some (standard.chunkPartType, rest)

/-- `ChunkFilenameParser::parse`: on `OK`, `(chunkType(), chunkId(), chunkVersion())`. -/
def parse (name : List Char) : Option (ChunkPartType × UInt64 × UInt32) := do
  let rest ← consumeString "chunk_".toList name
  let (chunkType, rest) ← parseChunkType rest
  let (run, rest) ← consumeWhile isUpperCaseHexDigit rest
  if run.length ≠ kChunkIdStringSize then failure
  let chunkId ← getHexValue 8 run
  let rest ← consumeString ['_'] rest
  let (run, rest) ← consumeWhile isUpperCaseHexDigit rest
  if run.length ≠ kChunkVersionStringSize then failure
  let chunkVersion ← getHexValue 4 run
  let rest ← consumeString CHUNK_METADATA_FILE_EXTENSION rest
  -- trailing characters: `consume(1)` succeeds
  if rest ≠ [] then failure
  pure (chunkType, UInt64.ofNat chunkId, UInt32.ofNat chunkVersion)

/-! ## The parser's steps on what the generator writes -/

theorem consumeString_append {token : List Char} (nonempty : token ≠ []) (rest : List Char) :
    consumeString token (token ++ rest) = some rest := by
  have prefixed : token.isPrefixOf (token ++ rest) = true := List.isPrefixOf_iff_prefix.mpr (List.prefix_append _ _)
  simp [consumeString, nonempty, prefixed]

theorem consumeString_of_head_ne {token rest : List Char} (nonempty : token ≠ []) (differ : token.head? ≠ rest.head?) :
    consumeString token rest = none := by
  unfold consumeString
  split
  · rfl
  · -- a prefix starts with the same character
    have notPrefix : token.isPrefixOf rest = false := by
      cases token with
      | nil => exact absurd rfl nonempty
      | cons t ts =>
        cases rest with
        | nil => rfl
        | cons c cs =>
          have differ' : t ≠ c := fun same => differ (by rw [same]; rfl)
          simp [List.isPrefixOf, differ']
    rw [if_neg (by simp [notPrefix])]

/-- A nonempty run of accepted characters up to a refused one. -/
theorem consumeWhile_append {checkType : Char → Bool} {run rest : List Char} (nonempty : run ≠ [])
    (accepted : ∀ c ∈ run, checkType c = true) (refused : ∃ c tail, rest = c :: tail ∧ checkType c = false) :
    consumeWhile checkType (run ++ rest) = some (run, rest) := by
  obtain ⟨c, tail, rfl, stop⟩ := refused
  have taken : (run ++ c :: tail).takeWhile checkType = run := by
    rw [List.takeWhile_append_of_pos accepted, List.takeWhile_cons, if_neg (by simp [stop]), List.append_nil]
  simp [consumeWhile, taken, nonempty]

theorem isDigit_digit : ∀ d < 10, (Nat.digitChar d).toUpper.isDigit = true := by decide

theorem isUpperCaseHexDigit_digit : ∀ d < 16, isUpperCaseHexDigit (Nat.digitChar d).toUpper = true := by decide

theorem digit_ne_zero_char : ∀ d < 16, 0 < d → (Nat.digitChar d).toUpper ≠ '0' := by decide

theorem isDigit_numeral {n : Nat} : ∀ c ∈ numeral 10 n, c.isDigit = true := fun _ mem => by
  obtain ⟨d, below, rfl⟩ := mem_numeral (by decide : 2 ≤ 10) (by decide : 10 ≤ 16) mem
  exact isDigit_digit d below

theorem isUpperCaseHexDigit_padded {width n : Nat} : ∀ c ∈ padded width (numeral 16 n), isUpperCaseHexDigit c = true :=
  fun _ mem => by
    rcases List.mem_append.mp mem with zero | digit
    · rw [(List.mem_replicate.mp zero).2]
      rfl
    · obtain ⟨d, below, rfl⟩ := mem_numeral (by decide : 2 ≤ 16) (by decide : 16 ≤ 16) digit
      exact isUpperCaseHexDigit_digit d below

/-- A positive number has no leading zero, so the parser's test for one fails. -/
theorem consumeString_zero_numeral {n : Nat} (positive : 0 < n) (rest : List Char) :
    consumeString ['0'] (numeral 10 n ++ rest) = none := by
  obtain ⟨d, nonzero, below, tail, written⟩ := numeral_head (by decide : 2 ≤ 10) (by decide : 10 ≤ 16) positive
  apply consumeString_of_head_ne (List.cons_ne_nil _ _)
  rw [written, List.cons_append, List.head?_cons, List.head?_cons]
  exact fun same => digit_ne_zero_char d (by omega) nonzero (Option.some.inj same).symm

/-- A decimal field reads back as its number while that fits an `int`. -/
theorem getDecValue_numeral {n : Nat} (fits : n < 2 ^ 31) : getDecValue (numeral 10 n) = some (n : Int) := by
  have read : value 10 (numeral 10 n) = n := value_numeral (by decide) (by decide) n
  simp only [getDecValue, read]
  rw [if_pos (by omega), Int.bmod_eq_of_le (by omega) (by omega)]

/-- A hex field of `width` digits reads back as its number when it fits. -/
theorem getHexValue_padded {size width n : Nat} (positive : 0 < width) (fits : n < 16 ^ width)
    (short : width / 2 ≤ size) (small : 16 ^ width ≤ 2 ^ 64) :
    getHexValue size (padded width (numeral 16 n)) = some n := by
  have length : (padded width (numeral 16 n)).length = width := length_padded (length_numeral_le positive fits)
  have read : value 16 (padded width (numeral 16 n)) = n := by
    rw [value_padded, value_numeral (by decide) (by decide)]
  simp only [getHexValue, length, read]
  rw [if_neg (by omega), if_pos (by omega)]

theorem padded_ne_nil {width : Nat} {s : List Char} (nonempty : s ≠ []) : padded width s ≠ [] := by
  simp [padded, nonempty]

/-- After the type field, the id, the version and the extension read back. -/
theorem parse_chunk {typed : List Char} {t : ChunkPartType} (id_ : UInt64) (version : UInt32)
    (read : parseChunkType typed = some (t, padded 16 (numeral 16 id_.toNat) ++ (['_'] ++
        (padded 8 (numeral 16 version.toNat) ++ CHUNK_METADATA_FILE_EXTENSION)))) :
    parse ("chunk_".toList ++ typed) = some (t, id_, version) := by
  have idFits : id_.toNat < 16 ^ 16 := id_.toNat_lt
  have versionFits : version.toNat < 16 ^ 8 := version.toNat_lt
  have idLength : (padded 16 (numeral 16 id_.toNat)).length = 16 := length_padded (length_numeral_le (by decide) idFits)
  have versionLength : (padded 8 (numeral 16 version.toNat)).length = 8 :=
    length_padded (length_numeral_le (by decide) versionFits)
  -- the id and the version are maximal runs of hex digits, closed by `_` and by `.`
  have idRun : consumeWhile isUpperCaseHexDigit (padded 16 (numeral 16 id_.toNat) ++ (['_'] ++
      (padded 8 (numeral 16 version.toNat) ++ CHUNK_METADATA_FILE_EXTENSION))) =
      some (padded 16 (numeral 16 id_.toNat), ['_'] ++ (padded 8 (numeral 16 version.toNat) ++
        CHUNK_METADATA_FILE_EXTENSION)) :=
    consumeWhile_append (padded_ne_nil (numeral_ne_nil 16 _)) isUpperCaseHexDigit_padded ⟨_, _, rfl, rfl⟩
  have versionRun : consumeWhile isUpperCaseHexDigit (padded 8 (numeral 16 version.toNat) ++
      CHUNK_METADATA_FILE_EXTENSION) = some (padded 8 (numeral 16 version.toNat), CHUNK_METADATA_FILE_EXTENSION) :=
    consumeWhile_append (padded_ne_nil (numeral_ne_nil 16 _)) isUpperCaseHexDigit_padded ⟨_, _, rfl, rfl⟩
  have extension : consumeString CHUNK_METADATA_FILE_EXTENSION CHUNK_METADATA_FILE_EXTENSION = some [] := by decide
  have idValue : getHexValue 8 (padded 16 (numeral 16 id_.toNat)) = some id_.toNat :=
    getHexValue_padded (by decide) idFits (by decide) (by decide)
  have versionValue : getHexValue 4 (padded 8 (numeral 16 version.toNat)) = some version.toNat :=
    getHexValue_padded (by decide) versionFits (by decide) (by decide)
  unfold parse
  rw [consumeString_append (by decide)]
  simp only [Option.bind_eq_bind, Option.bind_some, read, idRun, idLength, kChunkIdStringSize,
    idValue, consumeString_append (List.cons_ne_nil _ _), versionRun, versionLength, kChunkVersionStringSize,
    versionValue, extension, ne_eq, not_true_eq_false, if_false]
  rw [UInt64.ofNat_toNat, UInt32.ofNat_toNat]
  rfl

theorem consumeString_ofSeparator (rest : List Char) : consumeString "_of_".toList ("_of_".toList ++ rest) = some rest :=
  consumeString_append (by decide) rest

/-- A decimal field below 10 is one digit. -/
theorem length_numeral_digit {n : Nat} (small : n < 10) : (numeral 10 n).length ≤ 1 :=
  length_numeral_le (by decide) (by simpa using small)

theorem consumeWhile_numeral (n : Nat) (rest : List Char) :
    consumeWhile Char.isDigit (numeral 10 n ++ (['_'] ++ rest)) = some (numeral 10 n, ['_'] ++ rest) :=
  consumeWhile_append (numeral_ne_nil 10 n) isDigit_numeral ⟨_, _, rfl, by decide⟩

theorem consumeWhile_numeral_of {n : Nat} (rest : List Char) :
    consumeWhile Char.isDigit (numeral 10 n ++ ("_of_".toList ++ rest)) = some (numeral 10 n, "_of_".toList ++ rest) :=
  consumeWhile_append (numeral_ne_nil 10 n) isDigit_numeral ⟨_, _, rfl, by decide⟩

/-- A standard part has no type field: the id follows `chunk_`. -/
theorem parseChunkType_standard {rest : List Char} (hex : ∃ c tail, rest = c :: tail ∧ isUpperCaseHexDigit c = true) :
    parseChunkType rest = some (standard.chunkPartType, rest) := by
  obtain ⟨c, tail, rfl, digit⟩ := hex
  -- `e` and `x` are no upper-case hex digits
  have notE : 'e' ≠ c := by rintro rfl; exact absurd digit (by decide)
  have notX : 'x' ≠ c := by rintro rfl; exact absurd digit (by decide)
  unfold parseChunkType
  rw [consumeString_of_head_ne (by decide) (by simpa using notE), consumeString_of_head_ne (by decide) (by simpa using notE),
    consumeString_of_head_ne (by decide) (by simpa using notX)]

/-- The type field of an xor parity part. -/
theorem parseChunkType_xorParity {level : Nat} {t : ChunkPartType} (low : 2 ≤ level) (high : level ≤ 9)
    (built : xors.chunkPartType level xors.kXorParityPart = some t) (rest : List Char) :
    parseChunkType ("xor_parity_of_".toList ++ (numeral 10 level ++ (['_'] ++ rest))) = some (t, rest) := by
  have split : "xor_parity_of_".toList = "xor_".toList ++ "parity_of_".toList := rfl
  have short : ¬(numeral 10 level).length > 2 := by have := length_numeral_digit (by omega : level < 10); omega
  have range : ¬((level : Int) < 2 ∨ (level : Int) > 9) := by omega
  unfold parseChunkType parseXorChunkType
  rw [split, List.append_assoc, consumeString_of_head_ne (by decide) (by simp),
    consumeString_of_head_ne (by decide) (by simp), consumeString_append (by decide)]
  dsimp only
  rw [consumeString_append (by decide)]
  dsimp only
  simp only [Option.bind_eq_bind, Option.bind_some, consumeString_zero_numeral (by omega : 0 < level),
    Option.isSome_none, consumeWhile_numeral, short, getDecValue_numeral (by omega : level < 2 ^ 31), range,
    consumeString_append (List.cons_ne_nil _ _), built, Bool.false_eq_true, if_false]
  rfl

/-- The type field of an xor data part. -/
theorem parseChunkType_xorData {level part : Nat} {t : ChunkPartType} (low : 2 ≤ level) (high : level ≤ 9)
    (first : 1 ≤ part) (last : part ≤ level) (built : xors.chunkPartType level part = some t) (rest : List Char) :
    parseChunkType ("xor_".toList ++ (numeral 10 part ++ ("_of_".toList ++ (numeral 10 level ++ (['_'] ++ rest))))) =
      some (t, rest) := by
  have shortPart : ¬(numeral 10 part).length > 2 := by have := length_numeral_digit (by omega : part < 10); omega
  have shortLevel : ¬(numeral 10 level).length > 2 := by have := length_numeral_digit (by omega : level < 10); omega
  have positive : ¬(part : Int) < 1 := by omega
  have range : ¬((level : Int) < 2 ∨ (level : Int) > 9 ∨ (part : Int) > level) := by omega
  -- a data part number is no `parity_of_`
  have notParity : consumeString "parity_of_".toList (numeral 10 part ++ ("_of_".toList ++
      (numeral 10 level ++ (['_'] ++ rest)))) = none := by
    obtain ⟨d, nonzero, below, tail, written⟩ := numeral_head (by decide : 2 ≤ 10) (by decide : 10 ≤ 16) (by omega : 0 < part)
    apply consumeString_of_head_ne (by decide)
    rw [written, List.cons_append, List.head?_cons]
    exact fun same => absurd (isDigit_digit d below) (by rw [← Option.some.inj same]; decide)
  unfold parseChunkType parseXorChunkType
  rw [consumeString_of_head_ne (by decide) (by simp), consumeString_of_head_ne (by decide) (by simp),
    consumeString_append (by decide)]
  dsimp only
  rw [notParity]
  dsimp only
  simp only [Option.bind_eq_bind, Option.bind_some, consumeString_zero_numeral (by omega : 0 < part),
    consumeString_zero_numeral (by omega : 0 < level), Option.isSome_none, consumeWhile_numeral,
    consumeWhile_numeral_of, shortPart, shortLevel, getDecValue_numeral (by omega : part < 2 ^ 31),
    getDecValue_numeral (by omega : level < 2 ^ 31), positive, range, consumeString_ofSeparator,
    consumeString_append (List.cons_ne_nil _ _), built, Bool.false_eq_true, if_false]
  rfl

/-- The type field of a part of ec(k, m), with its index counted from one. -/
theorem parseChunkType_ec {dataCount parityCount part : Nat} {t : ChunkPartType} (low : 2 ≤ dataCount)
    (high : dataCount ≤ 32) (first : 1 ≤ parityCount) (last : parityCount ≤ 32) (inSlice : part < dataCount + parityCount)
    (built : ec.chunkPartType dataCount parityCount part = some t) (rest : List Char) :
    parseChunkType ("ec2_".toList ++ (numeral 10 (part + 1) ++ ("_of_".toList ++ (numeral 10 dataCount ++
      (['_'] ++ (numeral 10 parityCount ++ (['_'] ++ rest))))))) = some (t, rest) := by
  have index : ((part + 1 : Nat) : Int) - 1 = part := by omega
  have dataRange : ¬((dataCount : Int) < 2 ∨ (dataCount : Int) > 32) := by omega
  have parityRange : ¬((parityCount : Int) < 1 ∨ (parityCount : Int) > 32) := by omega
  have partRange : ¬((part : Int) ≥ dataCount + parityCount) := by omega
  unfold parseChunkType parseECChunkType
  rw [consumeString_append (by decide)]
  dsimp only
  simp only [Option.bind_eq_bind, Option.bind_some, consumeString_zero_numeral (Nat.succ_pos part),
    consumeString_zero_numeral (by omega : 0 < dataCount), consumeString_zero_numeral (by omega : 0 < parityCount),
    Option.isSome_none, consumeWhile_numeral, consumeWhile_numeral_of, getDecValue_numeral (by omega : part + 1 < 2 ^ 31),
    getDecValue_numeral (by omega : dataCount < 2 ^ 31), getDecValue_numeral (by omega : parityCount < 2 ^ 31), index,
    consumeString_ofSeparator, consumeString_append (List.cons_ne_nil _ _), dataRange, parityRange, partRange, built,
    Bool.false_eq_true, if_false]
  rfl

/-! ## Generated names read back -/

/-- The xor constructor rebuilds a part of an xor slice from its level and part. -/
theorem xors_chunkPartType_eq {t : ChunkPartType} (xor : isXor t.sliceType = true)
    (inSlice : t.slicePart < t.sliceType.expectedParts) :
    xors.chunkPartType (getXorLevel t.sliceType) t.slicePart = some t := by
  have bounds := (isXor_iff t.sliceType).mp xor
  rw [expectedParts_of_isXor xor, getNumberOfDataParts, if_pos xor] at inSlice
  obtain ⟨⟨value, valid⟩, part⟩ := t
  simp only [getXorLevel, SliceType.kXor2] at bounds inSlice ⊢
  unfold xors.chunkPartType
  rw [dif_pos (by omega)]
  simp only [SliceType.kXor2, Option.some.injEq, ChunkPartType.mk.injEq, SliceType.mk.injEq]
  omega

/-- The ec constructor rebuilds a part of ec(k, m) from k, m and its index. -/
theorem ec_chunkPartType_eq {t : ChunkPartType} (ecType : isEC t.sliceType = true)
    (inSlice : t.slicePart < t.sliceType.expectedParts) :
    ec.chunkPartType (getNumberOfDataParts t.sliceType) (getNumberOfParityParts t.sliceType) t.slicePart = some t := by
  have bounds := (isEC_iff t.sliceType).mp ecType
  have notXor : isXor t.sliceType = false := by
    rw [← Bool.not_eq_true, isXor_iff]
    omega
  rw [expectedParts_of_isEC ecType] at inSlice
  simp only [getNumberOfDataParts, getNumberOfParityParts, notXor, ecType, Bool.false_eq_true, if_false, if_true,
    SliceType.kECFirst] at inSlice ⊢
  obtain ⟨⟨value, valid⟩, part⟩ := t
  simp only at bounds inSlice ⊢
  unfold ec.chunkPartType
  rw [dif_pos (by omega)]
  simp only [SliceType.kECFirst, Option.some.injEq, ChunkPartType.mk.injEq, SliceType.mk.injEq]
  omega

/-- The id field starts with a hex digit, which no type field starts with. -/
theorem hex_head (id_ : UInt64) (rest : List Char) :
    ∃ c tail, padded 16 (numeral 16 id_.toNat) ++ rest = c :: tail ∧ isUpperCaseHexDigit c = true := by
  have nonempty : padded 16 (numeral 16 id_.toNat) ≠ [] := padded_ne_nil (numeral_ne_nil 16 id_.toNat)
  obtain ⟨c, tail, written⟩ := List.exists_cons_of_ne_nil nonempty
  exact ⟨c, tail ++ rest, by rw [written, List.cons_append],
    isUpperCaseHexDigit_padded c (by rw [written]; exact List.mem_cons_self)⟩

/-- Every metadata name the chunkserver writes for a standard part, a part of an
xor slice or a part of an ec slice parses back to its type, chunk id and version. -/
theorem parse_generateFilenameForVersion (t : ChunkPartType) (notTape : t.sliceType.value ≠ SliceType.kTape)
    (inSlice : t.slicePart < t.sliceType.expectedParts) (id_ : UInt64) (version : UInt32) :
    parse (generateFilenameForVersion t id_ version true) = some (t, id_, version) := by
  unfold generateFilenameForVersion
  rw [if_pos rfl]
  by_cases xor : isXor t.sliceType
  · have bounds := (isXor_iff t.sliceType).mp xor
    have notEC : isEC t.sliceType = false := by
      rw [← Bool.not_eq_true, isEC_iff]
      omega
    have level : getXorLevel t.sliceType = t.sliceType.value := by
      unfold getXorLevel SliceType.kXor2
      omega
    simp only [xor, notEC, if_true, Bool.false_eq_true, if_false, List.append_nil]
    by_cases parity : xors.isXorParity t
    · -- `xor_parity_of_L_`
      have part : t.slicePart = xors.kXorParityPart := by
        simpa [xors.isXorParity, xor] using parity
      rw [if_pos parity]
      simp only [List.append_assoc]
      apply parse_chunk
      refine parseChunkType_xorParity (by rw [level]; omega) (by rw [level]; omega) ?_ _
      rw [← part]
      exact xors_chunkPartType_eq xor inSlice
    · -- `xor_P_of_L_`
      have part : t.slicePart ≠ 0 := by
        simpa [xors.isXorParity, xor, xors.kXorParityPart] using parity
      rw [expectedParts_of_isXor xor, getNumberOfDataParts, if_pos xor] at inSlice
      rw [if_neg parity]
      simp only [List.append_assoc]
      apply parse_chunk
      have dataPart : getXorPart t = t.slicePart := rfl
      refine parseChunkType_xorData (by rw [level]; omega) (by rw [level]; omega) (by rw [dataPart]; omega)
        (by rw [dataPart]; omega) ?_ _
      rw [dataPart]
      exact xors_chunkPartType_eq xor (by rw [expectedParts_of_isXor xor, getNumberOfDataParts, if_pos xor]; omega)
  · have notXor : isXor t.sliceType = false := by simpa using xor
    by_cases ecType : isEC t.sliceType
    · -- `ec2_I_of_K_M_`
      have bounds := (isEC_iff t.sliceType).mp ecType
      have counts : 2 ≤ getNumberOfDataParts t.sliceType ∧ getNumberOfDataParts t.sliceType ≤ 32 ∧
          1 ≤ getNumberOfParityParts t.sliceType ∧ getNumberOfParityParts t.sliceType ≤ 32 := by
        simp only [getNumberOfDataParts, getNumberOfParityParts, notXor, ecType, Bool.false_eq_true, if_false,
          if_true, SliceType.kECFirst]
        omega
      have part := inSlice
      rw [expectedParts_of_isEC ecType] at part
      simp only [notXor, ecType, Bool.false_eq_true, if_false, if_true, List.nil_append, List.append_assoc]
      apply parse_chunk
      exact parseChunkType_ec counts.1 counts.2.1 counts.2.2.1 counts.2.2.2 part (ec_chunkPartType_eq ecType inSlice) _
    · -- a standard part: no type field
      have notEC : isEC t.sliceType = false := by simpa using ecType
      have plain := expectedParts_of_plain notXor notEC
      rw [plain.1] at inSlice
      have standard : t = standard.chunkPartType := by
        rw [← Bool.not_eq_true, isXor_iff] at notXor
        rw [← Bool.not_eq_true, isEC_iff] at notEC
        have valid := t.sliceType.valid
        obtain ⟨⟨value, valid⟩, part⟩ := t
        simp only [SliceType.kTape] at notTape notXor notEC valid inSlice
        simp only [standard.chunkPartType, SliceType.kStandard, ChunkPartType.mk.injEq, SliceType.mk.injEq]
        omega
      simp only [notXor, notEC, Bool.false_eq_true, if_false, List.nil_append, List.append_assoc]
      apply parse_chunk
      rw [standard]
      exact parseChunkType_standard (hex_head id_ _)

/-- The part number of an ec name goes through `std::stoull` and a conversion to
`int`, so `4294967297` is read as `1`: the parser accepts, for the first part of
ec(3, 2), a name other than the one the chunkserver writes for it. -/
theorem parse_accepts_wrapped_part_number :
    ∃ t id_ version, parse "chunk_ec2_4294967297_of_3_2_0000000000000001_00000001.met".toList = some (t, id_, version) ∧
      generateFilenameForVersion t id_ version true ≠ "chunk_ec2_4294967297_of_3_2_0000000000000001_00000001.met".toList :=
  ⟨⟨⟨43, by decide⟩, 0⟩, 1, 1, by decide +kernel, by decide⟩

end ChunkFilename

end SaunaFS
