/-! RichACL entries and lists (`src/common/richacl.h`, `richacl.cc`).

An entry keeps the source's bit fields: `type` is two bits wide, `flags` nine
and `mask` twenty-one, and every store into them truncates as the C++ bit-field
assignment does. `checkPermission` is the first-match loop of `richacl.h`, its
two jump targets made explicit by `Matched`. `equivMode` and the other functions
with an in-out argument return the value they leave in it; where the source
returns `false` and leaves the argument alone, `equivMode` returns `none`.

`isSameMode` and `createFromMode` are used by the client only and are not
modelled; `applyMasks` is in `RichACLCompat` and the string conversions are in
`RichACLString`.
-/

set_option autoImplicit false

namespace SaunaFS

/-- `RichACL::Ace` with its bit fields `type : 2`, `flags : 9` and `mask : 21`. -/
structure RichACL.Ace where
  type : UInt32
  flags : UInt32
  mask : UInt32
  id : UInt32
  type_lt : type < 4
  flags_lt : flags < 512
  mask_lt : mask < 0x200000
  deriving DecidableEq

namespace RichACL.Ace

def kAccessAllowedAceType : UInt32 := 0x0000
def kAccessDeniedAceType : UInt32 := 0x0001

def kFileInheritAce : UInt32 := 0x0001
def kDirectoryInheritAce : UInt32 := 0x0002
def kNoPropagateInheritAce : UInt32 := 0x0004
def kInheritOnlyAce : UInt32 := 0x0008
def kIdentifierGroup : UInt32 := 0x0040
def kInheritedAce : UInt32 := 0x0080
def kSpecialWho : UInt32 := 0x0100

def kReadData : UInt32 := 0x00000001
def kWriteData : UInt32 := 0x00000002
def kAppendData : UInt32 := 0x00000004
def kExecute : UInt32 := 0x00000020
def kDeleteChild : UInt32 := 0x00000040
def kReadAttributes : UInt32 := 0x00000080
def kWriteAttributes : UInt32 := 0x00000100
def kReadAcl : UInt32 := 0x00020000
def kWriteAcl : UInt32 := 0x00040000
def kWriteOwner : UInt32 := 0x00080000
def kSynchronize : UInt32 := 0x00100000

def kOwnerSpecialId : UInt32 := 0
def kGroupSpecialId : UInt32 := 1
def kEveryoneSpecialId : UInt32 := 2

-- `kListDirectory`, `kAddFile` and `kAddSubdirectory` share their bits with
-- `kReadData`, `kWriteData` and `kAppendData`.
def kPosixModeRead : UInt32 := kReadData
def kPosixModeWrite : UInt32 := kWriteData ||| kAppendData ||| kDeleteChild
def kPosixModeExec : UInt32 := kExecute

def kPosixAlwaysAllowed : UInt32 := kSynchronize ||| kReadAttributes ||| kReadAcl
def kPosixOwnerAllowed : UInt32 := kWriteAttributes ||| kWriteOwner ||| kWriteAcl

def kInheritanceFlags : UInt32 :=
  kFileInheritAce ||| kDirectoryInheritAce ||| kNoPropagateInheritAce ||| kInheritOnlyAce |||
    kInheritedAce

/-- `Ace(type, flags, mask, id)`: each value stored into its bit field. -/
def make (type flags mask id : UInt32) : Ace where
  type := type % 4
  flags := flags % 512
  mask := mask % 0x200000
  id := id
  type_lt := UInt32.mod_lt _ (by decide)
  flags_lt := UInt32.mod_lt _ (by decide)
  mask_lt := UInt32.mod_lt _ (by decide)

/-- An assignment to the `flags` bit field. -/
def setFlags (ace : Ace) (flags : UInt32) : Ace :=
  { ace with flags := flags % 512, flags_lt := UInt32.mod_lt _ (by decide) }

/-- An assignment to the `mask` bit field. -/
def setMask (ace : Ace) (mask : UInt32) : Ace :=
  { ace with mask := mask % 0x200000, mask_lt := UInt32.mod_lt _ (by decide) }

@[simp] theorem setFlags_type (ace : Ace) (flags : UInt32) : (ace.setFlags flags).type = ace.type :=
  rfl

@[simp] theorem setFlags_mask (ace : Ace) (flags : UInt32) : (ace.setFlags flags).mask = ace.mask :=
  rfl

@[simp] theorem setFlags_id (ace : Ace) (flags : UInt32) : (ace.setFlags flags).id = ace.id := rfl

@[simp] theorem setMask_type (ace : Ace) (mask : UInt32) : (ace.setMask mask).type = ace.type := rfl

@[simp] theorem setMask_flags (ace : Ace) (mask : UInt32) : (ace.setMask mask).flags = ace.flags :=
  rfl

@[simp] theorem setMask_id (ace : Ace) (mask : UInt32) : (ace.setMask mask).id = ace.id := rfl

def isAllow (ace : Ace) : Bool := ace.type == kAccessAllowedAceType

def isDeny (ace : Ace) : Bool := ace.type == kAccessDeniedAceType

def isOwner (ace : Ace) : Bool := ace.flags &&& kSpecialWho != 0 && ace.id == kOwnerSpecialId

def isGroup (ace : Ace) : Bool := ace.flags &&& kSpecialWho != 0 && ace.id == kGroupSpecialId

def isEveryone (ace : Ace) : Bool :=
  ace.flags &&& kSpecialWho != 0 && ace.id == kEveryoneSpecialId

def isUnixUser (ace : Ace) : Bool :=
  ace.flags &&& kSpecialWho == 0 && ace.flags &&& kIdentifierGroup == 0

def isUnixGroup (ace : Ace) : Bool :=
  ace.flags &&& kSpecialWho == 0 && ace.flags &&& kIdentifierGroup != 0

def isInheritable (ace : Ace) : Bool := ace.flags &&& (kFileInheritAce ||| kDirectoryInheritAce) != 0

def isInheritOnly (ace : Ace) : Bool := ace.flags &&& kInheritOnlyAce != 0

def isSameIdentifier (ace other : Ace) : Bool :=
  !((ace.flags ^^^ other.flags) &&& (kSpecialWho ||| kIdentifierGroup) != 0 || ace.id != other.id)

def inheritsToDirectory (ace : Ace) : Bool :=
  ace.flags &&& kDirectoryInheritAce != 0 ||
    (ace.flags &&& kFileInheritAce != 0 && ace.flags &&& kNoPropagateInheritAce == 0)

end RichACL.Ace

/-- `RichACL`: the three file masks, the acl flags and the entries in order. -/
structure RichACL where
  ownerMask : UInt32
  groupMask : UInt32
  otherMask : UInt32
  flags : UInt16
  aceList : List RichACL.Ace
  deriving DecidableEq

namespace RichACL

open Ace

def kAutoInherit : UInt16 := 0x01
def kProtected : UInt16 := 0x02
def kWriteThrough : UInt16 := 0x40
def kMasked : UInt16 := 0x80
def kAutoSetMode : UInt16 := 0x20

/-- `RichACL()`: no masks, no flags, no entries. -/
def empty : RichACL := ⟨0, 0, 0, 0, []⟩

def isAutoInherit (acl : RichACL) : Bool := acl.flags &&& kAutoInherit != 0

def isMasked (acl : RichACL) : Bool := acl.flags &&& kMasked != 0

def isWriteThrough (acl : RichACL) : Bool := acl.flags &&& kWriteThrough != 0

def isAutoSetMode (acl : RichACL) : Bool := acl.flags &&& kAutoSetMode != 0

/-! ## The permission check -/

/-- Where the loop of `checkPermission` sends an entry. -/
inductive Matched where
  /-- `continue`: the entry does not apply to the requester. -/
  | skip
  /-- `goto entry_matches_owner`. -/
  | owner
  /-- A group or named entry: its allowed bits pass the group mask of a masked acl. -/
  | member
  /-- `goto entry_matches_everyone`. -/
  | everyone
  deriving DecidableEq, Repr

/-- The branches at the head of the loop body of `checkPermission`. -/
def matchEntry (ace : Ace) (ownerUid uid : UInt32) (groups : List UInt32) (inOwningGroup : Bool) :
    Matched :=
  if ace.isInheritOnly then .skip
  else if ace.isOwner then
    if ownerUid ≠ uid then .skip else .owner
  else if ace.isGroup then
    if !inOwningGroup then .skip else .member
  else if ace.isUnixUser then
    if uid ≠ ace.id then .skip
    else if uid = ownerUid then .owner
    else .member
  else if ace.isUnixGroup then
    if groups.contains ace.id then .member else .skip
  else .everyone

/-- The local variables of the loop of `checkPermission`. -/
structure CheckState where
  mask : UInt32
  denied : UInt32
  inOwnerOrGroupClass : Bool
  deriving DecidableEq, Repr

/-- The loop body from its jump targets on: an entry that applies decides the
bits it names that are still undecided. -/
def CheckState.apply (state : CheckState) (ace : Ace) (aceMask : UInt32) (inClass : Bool) :
    CheckState where
  mask := state.mask &&& ~~~aceMask
  denied := if ace.isDeny then state.denied ||| (aceMask &&& state.mask) else state.denied
  inOwnerOrGroupClass := inClass

/-- The loop of `checkPermission` over the entries not yet visited. -/
def checkAces (acl : RichACL) (ownerUid uid : UInt32) (groups : List UInt32)
    (inOwningGroup : Bool) : List Ace → CheckState → CheckState
  | [], state => state
  | ace :: rest, state =>
    let continueWith (aceMask : UInt32) (inClass : Bool) : CheckState :=
      let next := state.apply ace aceMask inClass
      -- `if (!mask && in_owner_or_group_class) break;`
      if next.mask = 0 ∧ next.inOwnerOrGroupClass then next
      else checkAces acl ownerUid uid groups inOwningGroup rest next
    match matchEntry ace ownerUid uid groups inOwningGroup with
    | .skip => checkAces acl ownerUid uid groups inOwningGroup rest state
    | .owner => continueWith ace.mask true
    | .member =>
      continueWith (if acl.isMasked ∧ ace.isAllow then ace.mask &&& acl.groupMask else ace.mask) true
    | .everyone => continueWith ace.mask state.inOwnerOrGroupClass

/-- `RichACL::checkPermission`: whether every requested bit is granted. -/
def checkPermission (acl : RichACL) (requested ownerUid ownerGid uid : UInt32)
    (groups : List UInt32) : Bool :=
  let inOwningGroup := groups.contains ownerGid
  if acl.isMasked ∧ acl.isWriteThrough ∧ ownerUid = uid then
    decide (requested &&& ~~~acl.ownerMask = 0)
  else
    let start : CheckState := ⟨requested, 0, if acl.isMasked then inOwningGroup else true⟩
    let final := checkAces acl ownerUid uid groups inOwningGroup acl.aceList start
    let denied := final.denied ||| final.mask
    let denied :=
      if acl.isMasked then
        if uid = ownerUid then denied ||| (requested &&& ~~~acl.ownerMask)
        else if final.inOwnerOrGroupClass then denied ||| (requested &&& ~~~acl.groupMask)
        -- write-through replaces what the entries decided for the other class
        else if acl.isWriteThrough then requested &&& ~~~acl.otherMask
        else denied ||| (requested &&& ~~~acl.otherMask)
      else denied
    decide (denied = 0)

/-! ## What the permission check reads -/

theorem matchEntry_of_isInheritOnly {ace : Ace} (inheritOnly : ace.isInheritOnly = true)
    (ownerUid uid : UInt32) (groups : List UInt32) (inOwningGroup : Bool) :
    matchEntry ace ownerUid uid groups inOwningGroup = .skip := by
  simp [matchEntry, inheritOnly]

theorem matchEntry_of_isEveryone {ace : Ace} (effective : ace.isInheritOnly = false)
    (everyone : ace.isEveryone = true) (ownerUid uid : UInt32) (groups : List UInt32)
    (inOwningGroup : Bool) : matchEntry ace ownerUid uid groups inOwningGroup = .everyone := by
  simp only [isEveryone, Bool.and_eq_true, bne_iff_ne, ne_eq, beq_iff_eq] at everyone
  simp [matchEntry, effective, isOwner, isGroup, isUnixUser, isUnixGroup, everyone.1, everyone.2,
    kOwnerSpecialId, kGroupSpecialId, kEveryoneSpecialId]

/-- Inherit-only entries are invisible to the check. -/
theorem checkAces_of_inheritOnly (acl : RichACL) (ownerUid uid : UInt32) (groups : List UInt32)
    (inOwningGroup : Bool) :
    ∀ (aces : List Ace) (state : CheckState), (∀ ace ∈ aces, ace.isInheritOnly = true) →
      checkAces acl ownerUid uid groups inOwningGroup aces state = state
  | [], _, _ => rfl
  | ace :: rest, state, inheritOnly => by
    rw [checkAces, matchEntry_of_isInheritOnly (inheritOnly ace List.mem_cons_self)]
    exact checkAces_of_inheritOnly acl ownerUid uid groups inOwningGroup rest state
      fun other member => inheritOnly other (List.mem_cons_of_mem ace member)

theorem checkPermission_of_inheritOnly (acl : RichACL) (requested ownerUid ownerGid uid : UInt32)
    (groups : List UInt32) (unmasked : acl.isMasked = false)
    (inheritOnly : ∀ ace ∈ acl.aceList, ace.isInheritOnly = true) (nonzero : requested ≠ 0) :
    acl.checkPermission requested ownerUid ownerGid uid groups = false := by
  simp [checkPermission, unmasked, checkAces_of_inheritOnly _ _ _ _ _ _ _ inheritOnly, nonzero]

/-- A check state with every requested bit decided and none of them denied. -/
def CheckState.Settled (state : CheckState) : Prop := state.mask = 0 ∧ state.denied = 0

instance (state : CheckState) : Decidable state.Settled :=
  inferInstanceAs (Decidable (state.mask = 0 ∧ state.denied = 0))

theorem CheckState.Settled.apply {state : CheckState} (settled : state.Settled) (ace : Ace)
    (aceMask : UInt32) (inClass : Bool) : (state.apply ace aceMask inClass).Settled := by
  simp [CheckState.apply, settled.1, settled.2, CheckState.Settled]

/-- Entries met once every bit is decided change at most the class the requester is in. -/
theorem checkAces_settled (acl : RichACL) (ownerUid uid : UInt32) (groups : List UInt32)
    (inOwningGroup : Bool) : ∀ (aces : List Ace) (state : CheckState), state.Settled →
      (checkAces acl ownerUid uid groups inOwningGroup aces state).Settled
  | [], _, settled => settled
  | ace :: rest, state, settled => by
    have continued : ∀ aceMask inClass, let next := state.apply ace aceMask inClass
        (if next.mask = 0 ∧ next.inOwnerOrGroupClass = true then next
          else checkAces acl ownerUid uid groups inOwningGroup rest next).Settled := by
      intro aceMask inClass next
      have nextSettled : next.Settled := settled.apply ace aceMask inClass
      split
      · exact nextSettled
      · exact checkAces_settled acl ownerUid uid groups inOwningGroup rest next nextSettled
    rw [checkAces]
    split
    · exact checkAces_settled acl ownerUid uid groups inOwningGroup rest state settled
    all_goals exact continued _ _

/-- A masked acl grants a request its entries settle, when all three masks allow it. -/
theorem checkPermission_masked_of_settled (acl : RichACL) (requested ownerUid ownerGid uid : UInt32)
    (groups : List UInt32) (masked : acl.isMasked = true)
    (ownerClass : requested &&& ~~~acl.ownerMask = 0) (groupClass : requested &&& ~~~acl.groupMask = 0)
    (otherClass : requested &&& ~~~acl.otherMask = 0)
    (settled : (checkAces acl ownerUid uid groups (groups.contains ownerGid) acl.aceList
        ⟨requested, 0, groups.contains ownerGid⟩).Settled) :
    acl.checkPermission requested ownerUid ownerGid uid groups = true := by
  simp only [checkPermission, masked, if_true, settled.1, settled.2]
  split <;> simp [ownerClass, groupClass, otherClass]

/-! ## Masks and mode bits -/

def S_IROTH : UInt16 := 4
def S_IWOTH : UInt16 := 2
def S_IXOTH : UInt16 := 1

/-- `RichACL::convertMode2Mask`: the entry bits of the lowest three mode bits. -/
def convertMode2Mask (mode : UInt16) : UInt32 :=
  (if mode &&& S_IROTH ≠ 0 then kPosixModeRead else 0) |||
    (if mode &&& S_IWOTH ≠ 0 then kPosixModeWrite else 0) |||
    (if mode &&& S_IXOTH ≠ 0 then kPosixModeExec else 0)

/-- `RichACL::convertMask2Mode`: a mode bit for each class of entry bits present. -/
def convertMask2Mode (mask : UInt32) : UInt16 :=
  (if mask &&& kPosixModeRead ≠ 0 then S_IROTH else 0) |||
    (if mask &&& kPosixModeWrite ≠ 0 then S_IWOTH else 0) |||
    (if mask &&& kPosixModeExec ≠ 0 then S_IXOTH else 0)

/-- `RichACL::setMode`: masks from the mode, masked and write-through. -/
def setMode (acl : RichACL) (mode : UInt16) (isDir : Bool) : RichACL :=
  let x : UInt32 := if isDir then 0 else kDeleteChild
  { acl with
    flags := acl.flags ||| kMasked ||| kWriteThrough
    ownerMask := convertMode2Mask (mode >>> 6) &&& ~~~x
    groupMask := convertMode2Mask (mode >>> 3) &&& ~~~x
    otherMask := convertMode2Mask mode &&& ~~~x }

/-- `RichACL::getMode`: the permission bits the three masks give. -/
def getMode (acl : RichACL) : UInt16 :=
  (convertMask2Mode acl.ownerMask <<< 6) ||| (convertMask2Mode acl.groupMask <<< 3) |||
    convertMask2Mode acl.otherMask

/-! ## Masks computed from the entries -/

/-- `RichACL::allowedToWho`: the entries walked from the last one up. -/
def allowedToWho (acl : RichACL) (who : Ace) : UInt32 :=
  acl.aceList.foldr (fun ace allowed =>
    if ace.isInheritOnly then allowed
    else if ace.isSameIdentifier who || ace.isEveryone then
      if ace.isAllow then allowed ||| ace.mask
      else if ace.isDeny then allowed &&& ~~~ace.mask
      else allowed
    else allowed) 0

/-- `RichACL::groupClassAllowed`: what any entry but the owner's may allow. -/
def groupClassAllowed (acl : RichACL) : UInt32 :=
  let (everyoneAllowed, groupClassAllowed, hadGroupAce) :=
    acl.aceList.foldr (fun ace (state : UInt32 × UInt32 × Bool) =>
      let (everyoneAllowed, groupClassAllowed, hadGroupAce) := state
      if ace.isInheritOnly || ace.isOwner then state
      else if ace.isEveryone then
        (if ace.isAllow then everyoneAllowed ||| ace.mask
          else if ace.isDeny then everyoneAllowed &&& ~~~ace.mask
          else everyoneAllowed,
          groupClassAllowed, hadGroupAce)
      else (everyoneAllowed, groupClassAllowed ||| acl.allowedToWho ace, hadGroupAce || ace.isGroup))
      (0, 0, false)
  if hadGroupAce then groupClassAllowed else groupClassAllowed ||| everyoneAllowed

/-- `RichACL::computeMaxMasks`: upper bounds that disable nothing the entries allow. -/
def computeMaxMasks (acl : RichACL) : RichACL :=
  let gmask : UInt32 :=
    if acl.aceList.any (fun ace => !ace.isInheritOnly && !ace.isOwner && !ace.isEveryone && ace.isDeny)
    then acl.groupClassAllowed else ~~~0
  let (ownerMask, groupMask, otherMask) :=
    acl.aceList.foldr (fun ace (masks : UInt32 × UInt32 × UInt32) =>
      let (owner, group, other) := masks
      if ace.isInheritOnly then masks
      else if ace.isOwner then
        (if ace.isAllow then owner ||| ace.mask
          else if ace.isDeny then owner &&& ~~~ace.mask
          else owner, group, other)
      else if ace.isEveryone then
        if ace.isAllow then (owner ||| ace.mask, group ||| (ace.mask &&& gmask), other ||| ace.mask)
        else if ace.isDeny then (owner &&& ~~~ace.mask, group &&& ~~~ace.mask, other &&& ~~~ace.mask)
        else masks
      else if ace.isAllow then (owner ||| (ace.mask &&& gmask), group ||| (ace.mask &&& gmask), other)
      else masks)
      (0, 0, 0)
  { acl with ownerMask, groupMask, otherMask, flags := acl.flags &&& ~~~(kWriteThrough ||| kMasked) }

/-! ## Inheritance -/

/-- `RichACL::removeInheritOnly`: drop the inherit-only entries, or all the others. -/
def removeInheritOnly (acl : RichACL) (removeWithFlagSet : Bool) : RichACL :=
  { acl with aceList := acl.aceList.filter fun ace =>
      !((removeWithFlagSet && ace.isInheritOnly) || (!removeWithFlagSet && !ace.isInheritOnly)) }

/-- `RichACL::checkInheritFlags`: inherit-only entries inherit, and only directories
carry inheritance flags at all. -/
def checkInheritFlags (acl : RichACL) (isDirectory : Bool) : Bool :=
  acl.aceList.all (fun ace => !(ace.isInheritOnly && !ace.isInheritable)) &&
    (isDirectory || acl.aceList.all fun ace => !(ace.isInheritOnly || ace.isInheritable))

/-- `RichACL::inherit`: the acl a new node receives from its directory's entries. -/
def inherit (dirAcl : RichACL) (isDir : Bool) : RichACL :=
  let inherited : List Ace :=
    if isDir then
      (dirAcl.aceList.filter Ace.inheritsToDirectory).map fun dirAce =>
        if dirAce.flags &&& kNoPropagateInheritAce ≠ 0 then
          dirAce.setFlags (dirAce.flags &&& ~~~kInheritanceFlags)
        else if dirAce.flags &&& kDirectoryInheritAce ≠ 0 then
          dirAce.setFlags (dirAce.flags &&& ~~~kInheritOnlyAce)
        else dirAce.setFlags (dirAce.flags ||| kInheritOnlyAce)
    else
      (dirAcl.aceList.filter fun dirAce => dirAce.flags &&& kFileInheritAce != 0).map fun dirAce =>
        (dirAce.setFlags (dirAce.flags &&& ~~~kInheritanceFlags)).setMask
          (dirAce.mask &&& ~~~kDeleteChild)
  if dirAcl.isAutoInherit then
    { empty with
      flags := kAutoInherit
      aceList := inherited.map fun ace => ace.setFlags (ace.flags ||| kInheritedAce) }
  else
    { empty with aceList := inherited.map fun ace => ace.setFlags (ace.flags &&& ~~~kInheritedAce) }

/-- The accumulators of the loop of `equivMode`: for each of the owner, the owning
group and everyone, the bits allowed and the bits some entry has decided. -/
structure EquivState where
  ownerAllowed : UInt32
  ownerDefined : UInt32
  groupAllowed : UInt32
  groupDefined : UInt32
  everyoneAllowed : UInt32
  everyoneDefined : UInt32
  deriving DecidableEq, Repr

/-- The accumulators before the first entry; `x` is `kDeleteChild` for a file. -/
def EquivState.initial (x : UInt32) : EquivState where
  ownerAllowed := 0
  ownerDefined := kPosixAlwaysAllowed ||| kPosixOwnerAllowed ||| x
  groupAllowed := 0
  groupDefined := kPosixAlwaysAllowed ||| x
  everyoneAllowed := 0
  everyoneDefined := kPosixAlwaysAllowed ||| x

/-- One pass of the loop of `equivMode`; `none` is its `return false`. Any entry
that is not an allow entry counts as a deny. -/
def equivStep (state : EquivState) (ace : Ace) : Option EquivState :=
  if ace.flags &&& ~~~kSpecialWho ≠ 0 then none
  else if ace.isOwner || ace.isEveryone then
    let x := ace.mask &&& ~~~state.ownerDefined
    -- an owner in the owning group must not be decided against the group entries
    let conflict :=
      if ace.isAllow then x &&& (state.groupDefined &&& ~~~state.groupAllowed) ≠ 0
      else x &&& state.groupAllowed ≠ 0
    if conflict then none
    else
      let ownerAllowed := if ace.isAllow then state.ownerAllowed ||| x else state.ownerAllowed
      let ownerDefined := state.ownerDefined ||| x
      if ace.isEveryone then
        some
          { ownerAllowed, ownerDefined
            groupAllowed :=
              if ace.isAllow then state.groupAllowed ||| (ace.mask &&& ~~~state.groupDefined)
              else state.groupAllowed
            groupDefined := state.groupDefined ||| ace.mask
            everyoneAllowed :=
              if ace.isAllow then state.everyoneAllowed ||| (ace.mask &&& ~~~state.everyoneDefined)
              else state.everyoneAllowed
            everyoneDefined := state.everyoneDefined ||| ace.mask }
      else some { state with ownerAllowed, ownerDefined }
  else if ace.isGroup then
    let x := ace.mask &&& ~~~state.groupDefined
    some
      { state with
        groupAllowed := if ace.isAllow then state.groupAllowed ||| x else state.groupAllowed
        groupDefined := state.groupDefined ||| x }
  else none

/-- `RichACL::equivMode`: the mode bits that say what `acl` says, when there are
such bits; the bits above `0777` are those of `mode`. -/
def equivMode (acl : RichACL) (mode : UInt16) (isDir : Bool) : Option UInt16 :=
  let x : UInt32 := if isDir then 0 else kDeleteChild
  if acl.flags &&& ~~~(kWriteThrough ||| kMasked) ≠ 0 then none
  else if acl.isAutoSetMode ∧ acl.aceList.isEmpty then some mode
  else do
    let state ← acl.aceList.foldlM equivStep (EquivState.initial x)
    if state.groupAllowed &&& ~~~state.ownerDefined ≠ 0 then none
    else
      let ownerAllowed :=
        if acl.isMasked then
          if acl.isWriteThrough then acl.ownerMask else state.ownerAllowed &&& acl.ownerMask
        else state.ownerAllowed
      let everyoneAllowed :=
        if acl.isMasked then
          if acl.isWriteThrough then acl.otherMask else state.everyoneAllowed &&& acl.otherMask
        else state.everyoneAllowed
      let groupAllowed := if acl.isMasked then state.groupAllowed &&& acl.groupMask else state.groupAllowed
      let mode := (mode &&& ~~~(0o777 : UInt16)) ||| (convertMask2Mode ownerAllowed <<< 6) |||
        (convertMask2Mode groupAllowed <<< 3) ||| convertMask2Mode everyoneAllowed
      -- the mode must give back exactly the bits allowed
      if (convertMode2Mask (mode >>> 6) ^^^ ownerAllowed) &&& ~~~x ≠ 0 ∨
          (convertMode2Mask (mode >>> 3) ^^^ groupAllowed) &&& ~~~x ≠ 0 ∨
          (convertMode2Mask mode ^^^ everyoneAllowed) &&& ~~~x ≠ 0 then none
      else some mode

/-- What `RichACL::inheritInode` returns and leaves in its out-parameters. -/
structure Inherited where
  /-- The return value: the inherited acl is kept for the new node. -/
  keep : Bool
  mode : UInt16
  acl : RichACL

/-- `RichACL::inheritInode`: the acl and mode of a node created with mode `mode`
in a directory whose acl is `dirAcl`. -/
def inheritInode (dirAcl : RichACL) (mode umask : UInt16) (isDir : Bool) : Inherited :=
  let acl := inherit dirAcl isDir
  if acl.aceList.length = 0 then ⟨false, mode &&& ~~~umask, acl⟩
  else
    match equivMode acl mode isDir with
    | some equivalent => ⟨false, mode &&& equivalent, acl⟩
    | none =>
      let acl := if acl.isAutoInherit then { acl with flags := acl.flags ||| kProtected } else acl
      let acl := acl.computeMaxMasks
      let acl :=
        { acl with
          flags := acl.flags ||| kMasked
          ownerMask := acl.ownerMask &&& convertMode2Mask (mode >>> 6)
          groupMask := acl.groupMask &&& convertMode2Mask (mode >>> 3)
          otherMask := acl.otherMask &&& convertMode2Mask mode }
      ⟨true, acl.getMode, acl⟩

/-- `RichACL::createExplicitInheritance`: every inheritable entry that is not
inherit-only is split into an effective entry, in place, and an inherit-only
copy appended at the end. -/
def createExplicitInheritance (acl : RichACL) : RichACL :=
  let explicit (ace : Ace) : Bool := !ace.isInheritOnly && ace.isInheritable
  { acl with
    aceList :=
      acl.aceList.map (fun ace =>
        if explicit ace then
          ace.setFlags (ace.flags &&& ~~~(kInheritOnlyAce ||| kFileInheritAce ||| kDirectoryInheritAce))
        else ace) ++
      (acl.aceList.filter explicit).map fun ace => ace.setFlags (ace.flags ||| kInheritOnlyAce) }

end RichACL

end SaunaFS
