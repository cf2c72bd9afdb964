import SaunaFS.Common.RichACL
import SaunaFS.Common.AccessControlList

/-! POSIX acls as RichACLs (`src/common/richacl_posix_convert.cc`), with the
entry rewriting of `src/common/richacl_compat.cc` that the conversion uses.

A POSIX acl becomes allow entries for the owner, the owning group, the named
users and groups and everyone, in that order; deny entries in front of the
everyone entry keep the other rights from reaching those who have their own
entry; the POSIX mask becomes the group mask. A minimal POSIX acl becomes masks
only. The vector positions of the source are list indices, and the loops that
walk down from the next-to-last entry take the number of positions left.
-/

set_option autoImplicit false

namespace SaunaFS

namespace RichACL

open Ace

/-! ## Rewriting entries (`richacl_compat.cc`) -/

/-- `RichACL::changeMask` on the entry at position `i`. -/
def changeMask (acl : RichACL) (i : Nat) (mask : UInt32) : RichACL :=
  match acl.aceList[i]? with
  | none => acl
  | some ace =>
    if mask ≠ 0 ∧ ace.mask = mask then
      { acl with aceList := acl.aceList.set i (ace.setFlags (ace.flags &&& ~~~kInheritOnlyAce)) }
    else if mask &&& ~~~kPosixAlwaysAllowed ≠ 0 then
      if ace.isInheritable then
        -- an inherit-only copy goes in front; the entry itself stops inheriting
        let copy := ace.setFlags (ace.flags ||| kInheritOnlyAce)
        let changed := (ace.setFlags (ace.flags &&& (~~~kInheritanceFlags ||| kInheritedAce))).setMask mask
        { acl with aceList := (acl.aceList.set i changed).insertIdx i copy }
      else { acl with aceList := acl.aceList.set i (ace.setMask mask) }
    else if ace.isInheritable then
      { acl with aceList := acl.aceList.set i (ace.setFlags (ace.flags ||| kInheritOnlyAce)) }
    else { acl with aceList := acl.aceList.eraseIdx i }

/-- The backward search of `isolateWho` over positions `n - 1` down to `0`: the
deny entry of `who` to widen, or `none` where a new one is to be inserted. -/
def denyEntryBelow (aces : List Ace) (who : Ace) (deny : UInt32) : Nat → Option (Nat × Ace)
  | 0 => none
  | n + 1 =>
    match aces[n]? with
    | none => denyEntryBelow aces who deny n
    | some ace =>
      if ace.isInheritOnly then denyEntryBelow aces who deny n
      else if ace.isDeny then
        if ace.isSameIdentifier who then some (n, ace) else denyEntryBelow aces who deny n
      -- an allow entry for some of these bits ends the search
      else if ace.isAllow ∧ ace.mask &&& deny ≠ 0 then none
      else denyEntryBelow aces who deny n

/-- `RichACL::isolateWho`: deny `who` the bits of `deny` its own entries do not
name, just before the last (everyone) entry. -/
def isolateWho (acl : RichACL) (who : Ace) (deny : UInt32) : RichACL :=
  let deny := acl.aceList.foldl (fun deny ace =>
    if !ace.isInheritOnly && ace.isSameIdentifier who then deny &&& ~~~ace.mask else deny) deny
  if deny = 0 then acl
  else
    match denyEntryBelow acl.aceList who deny (acl.aceList.length - 1) with
    | some (i, ace) => acl.changeMask i (ace.mask ||| deny)
    | none =>
      { acl with
        aceList := acl.aceList.insertIdx (acl.aceList.length - 1)
          (Ace.make kAccessDeniedAceType (who.flags &&& ~~~kInheritanceFlags) deny who.id) }

/-- The loop of `isolateGroupClass` over positions `n - 1` down to `0`: isolate
every named entry from the bits of `deny`. -/
def isolateEntriesBelow (deny : UInt32) : Nat → RichACL → RichACL
  | 0, acl => acl
  | n + 1, acl =>
    match acl.aceList[n]? with
    | none => isolateEntriesBelow deny n acl
    | some ace =>
      if ace.isInheritOnly || ace.isOwner || ace.isGroup then isolateEntriesBelow deny n acl
      else isolateEntriesBelow deny n (acl.isolateWho ace deny)

/-- `RichACL::isolateGroupClass`: keep the group class from the bits the last
(everyone) entry allows beyond the group mask, and from `deny`. -/
def isolateGroupClass (acl : RichACL) (deny : UInt32) : RichACL :=
  match acl.aceList.getLast? with
  | none => acl
  | some last =>
    if last.isInheritOnly || !last.isEveryone then acl
    else
      let deny := deny ||| (last.mask &&& ~~~acl.groupMask)
      if deny = 0 then acl
      else
        let acl := acl.isolateWho (Ace.make 0 kSpecialWho 0 kGroupSpecialId) deny
        isolateEntriesBelow deny (acl.aceList.length - 1) acl

/-! ## Conversion (`richacl_posix_convert.cc`) -/

/-- The entry bits for POSIX rights, `kDeleteChild` only on directories. -/
def posixMask (rights : UInt8) (isDir : Bool) : UInt32 :=
  convertMode2Mask rights.toUInt16 &&& ~~~(if isDir then 0 else kDeleteChild)

/-- The allow entries of the named users and groups, in the order of the set. -/
def namedAces (posixAcl : AccessControlList) (isDir : Bool) : List Ace :=
  posixAcl.list.filterMap fun entry =>
    if entry.type = AccessControlList.kNamedUser then
      some (Ace.make kAccessAllowedAceType 0 (posixMask entry.accessRights isDir) entry.id)
    else if entry.type = AccessControlList.kNamedGroup then
      some (Ace.make kAccessAllowedAceType kIdentifierGroup (posixMask entry.accessRights isDir) entry.id)
    else none

/-- `RichACL::appendPosixACL`: append entries giving the rights of `posixAcl`;
masks and flags are set anew. -/
def appendPosixACL (acl : RichACL) (posixAcl : AccessControlList) (isDir : Bool) : RichACL :=
  let rightsOf (type : UInt8) : UInt32 := posixMask (posixAcl.getEntry type 0).accessRights isDir
  let acl := { acl with flags := 0, ownerMask := 0, groupMask := 0, otherMask := 0 }
  if posixAcl.minimalAcl then
    -- a minimal acl is represented by masks only, with no entries
    { acl with
      ownerMask := rightsOf AccessControlList.kUser
      groupMask := rightsOf AccessControlList.kGroup
      otherMask := rightsOf AccessControlList.kOther
      flags := kMasked ||| kWriteThrough }
  else
    let otherMask := rightsOf AccessControlList.kOther
    let acl :=
      { acl with
        aceList := acl.aceList ++
          [Ace.make kAccessAllowedAceType kSpecialWho (rightsOf AccessControlList.kUser) kOwnerSpecialId,
            Ace.make kAccessAllowedAceType kSpecialWho (rightsOf AccessControlList.kGroup) kGroupSpecialId] ++
          namedAces posixAcl isDir ++
          [Ace.make kAccessAllowedAceType kSpecialWho otherMask kEveryoneSpecialId] }
    let acl := (acl.isolateWho (Ace.make 0 kSpecialWho 0 kOwnerSpecialId) otherMask).isolateGroupClass
      otherMask
    let acl :=
      { acl with
        ownerMask := acl.allowedToWho (Ace.make 0 kSpecialWho 0 kOwnerSpecialId)
        groupMask := acl.allowedToWho (Ace.make 0 kSpecialWho 0 kGroupSpecialId)
        otherMask := acl.allowedToWho (Ace.make 0 kSpecialWho 0 kEveryoneSpecialId) }
    -- the POSIX mask entry is the group mask of a masked acl
    let maskEntry := posixAcl.getEntry AccessControlList.kMask 0
    if maskEntry.type ≠ AccessControlList.kInvalid then
      { acl with groupMask := posixMask maskEntry.accessRights isDir, flags := acl.flags ||| kMasked }
    else acl

/-- `RichACL::appendDefaultPosixACL`: the entries of the converted acl, made
inheritable by files and directories and inherit-only. -/
def appendDefaultPosixACL (acl : RichACL) (posixAcl : AccessControlList) : RichACL :=
  let dirAcl := empty.appendPosixACL posixAcl true
  { acl with
    aceList := acl.aceList ++ dirAcl.aceList.map fun ace =>
      ace.setFlags (ace.flags ||| (kFileInheritAce ||| kDirectoryInheritAce ||| kInheritOnlyAce)) }

end RichACL

end SaunaFS
