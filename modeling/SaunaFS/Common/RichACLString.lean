import Mathlib
import SaunaFS.Common.RichACL

/-! The text form of a RichACL (`src/common/richacl_string.cc`).

`RichACL::toString` writes the acl flags, the three masks and then every entry
as `mask:flags:type:identifier/`; `RichACL::fromString` reads that form back.
A set of bits is written by one loop over its table of letters and read by two:
the first walks the table once and takes the letters in its order, the second
takes any letter of the table. The three writers are one definition over the
table, and so are the three readers. Strings are lists of characters, and a
`FormatException` is an error carrying its message.

The tables have no letter for `kAutoSetMode` and none for the audit flags of an
entry, so the text forgets them.
-/

set_option autoImplicit false

namespace SaunaFS.RichACL

open Ace

def kDefaulted : UInt16 := 0x04

namespace Ace

def kSuccessfulAccessAceFlag : UInt32 := 0x00000010
def kFailedAccessAceFlag : UInt32 := 0x00000020

def kListDirectory : UInt32 := 0x00000001
def kAddFile : UInt32 := 0x00000002
def kAddSubdirectory : UInt32 := 0x00000004
def kReadNamedAttrs : UInt32 := 0x00000008
def kWriteNamedAttrs : UInt32 := 0x00000010
def kWriteRetention : UInt32 := 0x00000200
def kWriteRetentionHold : UInt32 := 0x00000400
def kDelete : UInt32 := 0x00010000

end Ace

/-! ## The tables -/

/-- `kAclFlagBits`, whose bits are `unsigned char`. -/
def kAclFlagBits : List (Char × UInt8) :=
  [('m', kMasked.toUInt8), ('w', kWriteThrough.toUInt8), ('a', kAutoInherit.toUInt8),
    ('p', kProtected.toUInt8), ('d', kDefaulted.toUInt8)]

def kTypeValues : List (UInt32 × Char) := [(kAccessAllowedAceType, 'A'), (kAccessDeniedAceType, 'D')]

def kAceFlagBits : List (Char × UInt32) :=
  [('f', kFileInheritAce), ('d', kDirectoryInheritAce), ('n', kNoPropagateInheritAce),
    ('i', kInheritOnlyAce), ('a', kInheritedAce), ('S', kSpecialWho)]

/-- `kMaskFlags`; the file and directory names of one bit share its letter. -/
def kMaskFlags : List (Char × UInt32) :=
  [('r', kReadData), ('r', kListDirectory), ('w', kWriteData), ('w', kAddFile),
    ('p', kAppendData), ('p', kAddSubdirectory), ('x', kExecute), ('d', kDeleteChild),
    ('D', kDelete), ('a', kReadAttributes), ('A', kWriteAttributes), ('R', kReadNamedAttrs),
    ('W', kWriteNamedAttrs), ('c', kReadAcl), ('C', kWriteAcl), ('o', kWriteOwner),
    ('S', kSynchronize), ('e', kWriteRetention), ('E', kWriteRetentionHold)]

/-! ## Writing -/

section Bits

variable {β : Type} [AndOp β] [Complement β] [OfNat β 0] [DecidableEq β]

/-- The loop of `writeACLFlags`, `writeAceFlags` and `writeMask`: the letter of every
entry whose bits are still set, each entry's bits cleared once written. -/
def writeBits : List (Char × β) → β → List Char
  | [], _ => []
  | (letter, bit) :: table, bits =>
    if bits &&& bit ≠ 0 then letter :: writeBits table (bits &&& ~~~bit) else writeBits table bits

/-- Clearing bits that no entry of the table tests changes nothing that is written. -/
theorem writeBits_and_not (m : β) (rightComm : ∀ x b : β, x &&& ~~~m &&& ~~~b = x &&& ~~~b &&& ~~~m)
    (table : List (Char × β)) (untested : ∀ entry ∈ table, ∀ x : β, x &&& ~~~m &&& entry.2 = x &&& entry.2)
    (bits : β) : writeBits table (bits &&& ~~~m) = writeBits table bits := by
  induction table generalizing bits with
  | nil => rfl
  | cons entry table ih =>
    obtain ⟨letter, bit⟩ := entry
    have tail := ih fun entry member => untested entry (List.mem_cons_of_mem _ member)
    have head : bits &&& ~~~m &&& bit = bits &&& bit := untested (letter, bit) List.mem_cons_self bits
    simp only [writeBits, head, rightComm, tail]

end Bits

/-- Bits outside `m` keep their values when `m` is cleared. -/
theorem BitVec.and_not_and_of_and_eq_zero {w : Nat} (x m b : BitVec w) (disjoint : b &&& m = 0) :
    x &&& ~~~m &&& b = x &&& b := by
  ext i hi
  have bit := congrArg (fun v => v[i]) disjoint
  simp only [BitVec.getElem_and] at bit
  simp only [BitVec.getElem_and, BitVec.getElem_not]
  revert bit
  cases b[i] <;> cases m[i] <;> simp

theorem UInt8.and_not_and_of_and_eq_zero (x m b : UInt8) (disjoint : b &&& m = 0) :
    x &&& ~~~m &&& b = x &&& b := by
  apply UInt8.toBitVec_inj.mp
  have bits := congrArg UInt8.toBitVec disjoint
  simp only [UInt8.toBitVec_and, UInt8.toBitVec_not, UInt8.toBitVec_zero] at bits ⊢
  exact BitVec.and_not_and_of_and_eq_zero _ _ _ bits

theorem UInt32.and_not_and_of_and_eq_zero (x m b : UInt32) (disjoint : b &&& m = 0) :
    x &&& ~~~m &&& b = x &&& b := by
  apply UInt32.toBitVec_inj.mp
  have bits := congrArg UInt32.toBitVec disjoint
  simp only [UInt32.toBitVec_and, UInt32.toBitVec_not, UInt32.toBitVec_zero] at bits ⊢
  exact BitVec.and_not_and_of_and_eq_zero _ _ _ bits

theorem UInt8.and_not_right_comm (x m b : UInt8) : x &&& ~~~m &&& ~~~b = x &&& ~~~b &&& ~~~m := by
  rw [UInt8.and_assoc, UInt8.and_comm (~~~m), ← UInt8.and_assoc]

theorem UInt32.and_not_right_comm (x m b : UInt32) : x &&& ~~~m &&& ~~~b = x &&& ~~~b &&& ~~~m := by
  rw [UInt32.and_assoc, UInt32.and_comm (~~~m), ← UInt32.and_assoc]

def writeACLFlags (flags : UInt8) : List Char :=
  if flags = 0 then [] else writeBits kAclFlagBits flags

def writeType (type : UInt32) : List Char :=
  match kTypeValues.find? fun value => value.1 = type with
  | some (_, name) => [name]
  -- an entry of another type is written as the character with its code
  | none => [Char.ofNat type.toNat]

def writeAceFlags (flags : UInt32) : List Char :=
  writeBits kAceFlagBits (flags &&& ~~~(kIdentifierGroup ||| kSpecialWho))

def writeMask (mask : UInt32) : List Char := writeBits kMaskFlags mask

def writeIdentifier (ace : Ace) : List Char :=
  if ace.flags &&& kSpecialWho ≠ 0 then
    if ace.id = kOwnerSpecialId then ['O']
    else if ace.id = kGroupSpecialId then ['G']
    else if ace.id = kEveryoneSpecialId then ['E']
    else []
  else if ace.flags &&& kIdentifierGroup ≠ 0 then 'g' :: Nat.toDigits 10 ace.id.toNat
  else 'u' :: Nat.toDigits 10 ace.id.toNat

def Ace.toString (ace : Ace) : List Char :=
  writeMask ace.mask ++ [':'] ++ writeAceFlags ace.flags ++ [':'] ++ writeType ace.type ++ [':'] ++
    writeIdentifier ace ++ ['/']

/-- `RichACL::toString`; `flags_` is passed to `writeACLFlags` as an `unsigned char`. -/
def toString (acl : RichACL) : List Char :=
  writeACLFlags acl.flags.toUInt8 ++ ['|'] ++ writeMask acl.ownerMask ++ ['|'] ++ writeMask acl.groupMask ++
    ['|'] ++ writeMask acl.otherMask ++ ['|'] ++ acl.aceList.flatMap Ace.toString

/-- The early return of `writeACLFlags` writes what its loop would. -/
theorem writeACLFlags_eq (flags : UInt8) : writeACLFlags flags = writeBits kAclFlagBits flags := by
  unfold writeACLFlags
  split
  · next zero => subst zero; rfl
  · rfl

theorem writeACLFlags_and_not_kAutoSetMode (flags : UInt8) :
    writeACLFlags (flags &&& ~~~kAutoSetMode.toUInt8) = writeACLFlags flags := by
  rw [writeACLFlags_eq, writeACLFlags_eq]
  apply writeBits_and_not _ (UInt8.and_not_right_comm · _)
  intro entry member x
  apply UInt8.and_not_and_of_and_eq_zero
  simp only [kAclFlagBits, List.mem_cons, List.not_mem_nil, or_false] at member
  rcases member with rfl | rfl | rfl | rfl | rfl <;> decide

/-- The text has no letter for `kAutoSetMode`. -/
theorem toString_and_not_kAutoSetMode (acl : RichACL) :
    toString { acl with flags := acl.flags &&& ~~~kAutoSetMode } = toString acl := by
  have low : (acl.flags &&& ~~~kAutoSetMode).toUInt8 = acl.flags.toUInt8 &&& ~~~kAutoSetMode.toUInt8 := by
    simp [kAutoSetMode]
  simp only [toString, low, writeACLFlags_and_not_kAutoSetMode]

/-! ## Reading -/

/-- `str[i]` of a `std::string`, which is `'\0'` at the end. -/
def charAt (str : List Char) (i : Nat) : Char := str.getD i (Char.ofNat 0)

/-- `str.substr(start, count)`. -/
def substr (str : List Char) (start count : Nat) : List Char := (str.drop start).take count

/-- The characters from `start` up to `delim`, which the readers take. -/
def segment (str : List Char) (start delim : Nat) : List Char := substr str start (delim - start)

/-- `str.find_first_of(c, start)`. -/
def findFirstOf (str : List Char) (c : Char) (start : Nat) : Option Nat :=
  ((str.drop start).findIdx? fun next => next = c).map (start + ·)

section Bits

variable {β : Type} [OrOp β] [OfNat β 0]

/-- The first loop of `getAclFlags`, `getAceMask` and `getAceFlags`: one walk over the
table that takes the next letter wherever it is the entry's, until the text is read;
the bits taken and the letters left. -/
def scanInOrder (bits : β) : List (Char × β) → List Char → β × List Char
  | _, [] => (bits, [])
  | [], text => (bits, text)
  | (letter, bit) :: table, next :: text =>
    if next = letter then scanInOrder (bits ||| bit) table text else scanInOrder bits table (next :: text)

/-- The second loop: every letter left is looked up in the whole table. -/
def scanAnyOrder (table : List (Char × β)) (message : String) (bits : β) : List Char → Except String β
  | [] => .ok bits
  | next :: text =>
    match table.find? fun entry => entry.1 = next with
    | some (_, bit) => scanAnyOrder table message (bits ||| bit) text
    | none => .error (message ++ String.singleton next)

/-- The readers of a set of bits: both loops over one table. -/
def getBits (table : List (Char × β)) (message : String) (text : List Char) : Except String β :=
  let scanned := scanInOrder 0 table text
  scanAnyOrder table message scanned.1 scanned.2

end Bits

def getAclFlags (text : List Char) : Except String UInt16 :=
  (getBits kAclFlagBits "Unsupported ace flag " text).map UInt8.toUInt16

def getAceMask (text : List Char) : Except String UInt32 := getBits kMaskFlags "Unsupported ace mask " text

def getAceFlags (text : List Char) : Except String UInt32 := getBits kAceFlagBits "Unsupported ace flag " text

def getAceType (str : List Char) (start : Nat) : Except String UInt32 :=
  if charAt str start = 'A' then .ok kAccessAllowedAceType
  else if charAt str start = 'D' then .ok kAccessDeniedAceType
  else .error ("unsupported ace type " ++ String.ofList (substr str start 1))

/-- `isspace` of the C locale. -/
def isspace (c : Char) : Bool :=
  c = ' ' || c = '\t' || c = '\n' || c.toNat = 11 || c.toNat = 12 || c = '\r'

/-- `std::stoull` in base ten: blanks, a sign and the longest run of digits; `none`
where it throws, for a text without digits or a value past 64 bits. -/
def stoull (text : List Char) : Option UInt64 :=
  let text := text.dropWhile isspace
  let signed : Bool × List Char :=
    match text with
    | '-' :: rest => (true, rest)
    | '+' :: rest => (false, rest)
    | rest => (false, rest)
  let digits := signed.2.takeWhile Char.isDigit
  let value := digits.foldl (fun value digit => 10 * value + (digit.toNat - '0'.toNat)) 0
  if digits = [] ∨ 2 ^ 64 ≤ value then none
  else if signed.1 then some (0 - UInt64.ofNat value) else some (UInt64.ofNat value)

/-- The identifier of a named entry: what `stoull` reads, stored into the `uint32_t`
field, or the largest id where it throws. -/
def readId (text : List Char) : UInt32 :=
  match stoull text with
  | some value => value.toUInt32
  | none => 0xFFFFFFFF

/-- `setAceIdentifier`; the id is read from `str.substr(start, delim)`, whose length
is `delim` and not `delim - start`. -/
def setAceIdentifier (ace : Ace) (str : List Char) (start delim : Nat) : Except String Ace :=
  match charAt str start with
  | 'O' => .ok ({ ace with id := kOwnerSpecialId }.setFlags (ace.flags ||| kSpecialWho))
  | 'G' => .ok ({ ace with id := kGroupSpecialId }.setFlags (ace.flags ||| kSpecialWho))
  | 'E' => .ok ({ ace with id := kEveryoneSpecialId }.setFlags (ace.flags ||| kSpecialWho))
  | 'u' => .ok { ace with id := readId (substr str (start + 1) delim) }
  | 'g' => .ok ({ ace with id := readId (substr str (start + 1) delim) }.setFlags (ace.flags ||| kIdentifierGroup))
  | _ => .error ("unsupported ace identifier " ++ String.ofList (substr str start 1))

/-- One pass of the entry loop of `fromString`: the entry read from `start`, stored
into the bit fields of a zero entry, and the position after its `/`. -/
def parseAce (str : List Char) (start : Nat) : Except String (Ace × Nat) := do
  let some delim := findFirstOf str ':' start | throw "string too short, cannot parse ace mask"
  let mask ← getAceMask (segment str start delim)
  let start := delim + 1
  let some delim := findFirstOf str ':' start | throw "string too short, cannot parse ace flags"
  let flags ← getAceFlags (segment str start delim)
  let start := delim + 1
  let some delim := findFirstOf str ':' start | throw "string too short, cannot parse ace type"
  let type ← getAceType str start
  let start := delim + 1
  let some delim := findFirstOf str '/' start | throw "string too short, cannot parse ace id"
  let ace ← setAceIdentifier (Ace.make type flags mask 0) str start delim
  return (ace, delim + 1)

/-- The entry loop of `fromString`, every entry appended as `RichACL::insert` does.
A pass reads at least three colons and a slash, so the text's length is fuel
enough. -/
def parseAces (str : List Char) : Nat → Nat → List Ace → Except String (List Ace)
  | 0, _, aceList => .ok aceList
  | fuel + 1, start, aceList =>
    if start < str.length then do
      let (ace, start) ← parseAce str start
      parseAces str fuel start (aceList ++ [ace])
    else .ok aceList

def fromString (str : List Char) : Except String RichACL := do
  let some delim := findFirstOf str '|' 0 | throw "string too short, cannot parse acl flags"
  let flags ← getAclFlags (segment str 0 delim)
  let start := delim + 1
  let some delim := findFirstOf str '|' start | throw "string too short, cannot parse acl owner mask"
  let ownerMask ← getAceMask (segment str start delim)
  let start := delim + 1
  let some delim := findFirstOf str '|' start | throw "string too short, cannot parse acl group mask"
  let groupMask ← getAceMask (segment str start delim)
  let start := delim + 1
  let some delim := findFirstOf str '|' start | throw "string too short, cannot parse acl other mask"
  let otherMask ← getAceMask (segment str start delim)
  let aceList ← parseAces str str.length (delim + 1) []
  return ⟨ownerMask, groupMask, otherMask, flags, aceList⟩

end SaunaFS.RichACL
