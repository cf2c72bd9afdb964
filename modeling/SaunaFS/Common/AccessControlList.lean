/-! POSIX access control lists (`src/common/access_control_list.h`).

The owner, owning group, other and mask rights are four-bit fields of one
16-bit word, `0xF` marking an unset mask; named users and groups are a
`flat_set` ordered by type, id and rights. The set is the list of its entries
in that order, so the `lower_bound` search of `getEntry` is the first entry of
the type and id asked for. `setEntry`, `removeEntry` and the string forms are
not used by the modelled master code and are left out.
-/

set_option autoImplicit false

namespace SaunaFS

/-- `AccessControlList::Entry` with its bit fields `type : 4` and `access_rights : 4`. -/
structure AccessControlList.Entry where
  id : UInt32
  type : UInt8
  accessRights : UInt8
  type_lt : type < 16
  accessRights_lt : accessRights < 16
  deriving DecidableEq

/-- `AccessControlList`: the named entries and the packed basic permissions. -/
structure AccessControlList where
  list : List AccessControlList.Entry
  basicPermissions : UInt16
  deriving DecidableEq

namespace AccessControlList

def kNamedUser : UInt8 := 0
def kNamedGroup : UInt8 := 1
def kUser : UInt8 := 2
def kGroup : UInt8 := 3
def kOther : UInt8 := 4
def kMask : UInt8 := 5
def kInvalid : UInt8 := 6

def kMaskUnset : UInt8 := 0xF

/-- `Entry(type, id, rights)`: each value stored into its bit field. -/
def Entry.make (type : UInt8) (id : UInt32) (rights : UInt8) : Entry where
  id := id
  type := type % 16
  accessRights := rights % 16
  type_lt := UInt8.mod_lt _ (by decide)
  accessRights_lt := UInt8.mod_lt _ (by decide)

/-- `AccessControlList()`: no named entries, every basic right `0`, the mask unset. -/
def empty : AccessControlList := ⟨[], 0xF000⟩

def getOwnerRights (acl : AccessControlList) : UInt8 :=
  ((acl.basicPermissions >>> 8) &&& (0xF : UInt16)).toUInt8

def getGroupRights (acl : AccessControlList) : UInt8 :=
  ((acl.basicPermissions >>> 4) &&& (0xF : UInt16)).toUInt8

def getOtherRights (acl : AccessControlList) : UInt8 :=
  (acl.basicPermissions &&& (0xF : UInt16)).toUInt8

def getMaskRights (acl : AccessControlList) : UInt8 := (acl.basicPermissions >>> 12).toUInt8

def setOwnerRights (acl : AccessControlList) (value : UInt8) : AccessControlList :=
  { acl with
    basicPermissions := (acl.basicPermissions &&& (0xF0FF : UInt16)) ||| ((value &&& 0xF).toUInt16 <<< 8) }

def setGroupRights (acl : AccessControlList) (value : UInt8) : AccessControlList :=
  { acl with
    basicPermissions := (acl.basicPermissions &&& (0xFF0F : UInt16)) ||| ((value &&& 0xF).toUInt16 <<< 4) }

def setOtherRights (acl : AccessControlList) (value : UInt8) : AccessControlList :=
  { acl with
    basicPermissions := (acl.basicPermissions &&& (0xFFF0 : UInt16)) ||| (value &&& 0xF).toUInt16 }

def setMaskRights (acl : AccessControlList) (value : UInt8) : AccessControlList :=
  { acl with
    basicPermissions := (acl.basicPermissions &&& (0x0FFF : UInt16)) ||| ((value &&& 0xF).toUInt16 <<< 12) }

/-- `AccessControlList::getMode`: owner, mask (owning group if unset) and other rights. -/
def getMode (acl : AccessControlList) : UInt16 :=
  if acl.getMaskRights ≠ kMaskUnset then
    (acl.getOtherRights &&& 0x7).toUInt16 ||| ((acl.getMaskRights &&& 0x7).toUInt16 <<< 3) |||
      ((acl.getOwnerRights &&& 0x7).toUInt16 <<< 6)
  else
    (acl.getOtherRights &&& 0x7).toUInt16 ||| ((acl.getGroupRights &&& 0x7).toUInt16 <<< 3) |||
      ((acl.getOwnerRights &&& 0x7).toUInt16 <<< 6)

/-- `AccessControlList::setMode`: the group bits go to the mask when there is one. -/
def setMode (acl : AccessControlList) (mode : UInt16) : AccessControlList :=
  let acl := (acl.setOtherRights (mode &&& 0x7).toUInt8).setOwnerRights ((mode >>> 6) &&& 0x7).toUInt8
  if acl.getMaskRights = kMaskUnset then acl.setGroupRights ((mode >>> 3) &&& 0x7).toUInt8
  else acl.setMaskRights ((mode >>> 3) &&& 0x7).toUInt8

/-- The entry `getEntry` returns when there is none. -/
def invalidEntry : Entry := Entry.make kInvalid 0xFFFFFFFF 0

/-- `AccessControlList::getEntry`. -/
def getEntry (acl : AccessControlList) (type : UInt8) (id : UInt32) : Entry :=
  if type = kNamedUser ∨ type = kNamedGroup then
    (acl.list.find? fun entry => entry.type == type && entry.id == id).getD invalidEntry
  else if type = kUser then Entry.make kUser 0xFFFFFFFF acl.getOwnerRights
  else if type = kGroup then Entry.make kGroup 0xFFFFFFFF acl.getGroupRights
  else if type = kOther then Entry.make kOther 0xFFFFFFFF acl.getOtherRights
  else if type = kMask ∧ acl.getMaskRights ≠ kMaskUnset then
    Entry.make kMask 0xFFFFFFFF acl.getMaskRights
  else invalidEntry

/-- `AccessControlList::minimalAcl`: no mask and no named entries. -/
def minimalAcl (acl : AccessControlList) : Bool := acl.getMaskRights == kMaskUnset && acl.list.isEmpty

/-- `AccessControlList::applyMask`. -/
def applyMask (acl : AccessControlList) (accessRights : UInt8) : UInt8 :=
  if acl.getMaskRights ≠ kMaskUnset then accessRights &&& acl.getMaskRights else accessRights

/-- `AccessControlList::getEffectiveRights`: the POSIX.1e access check algorithm. -/
def getEffectiveRights (acl : AccessControlList) (ownerUid ownerGid uid : UInt32)
    (groups : List UInt32) : UInt8 :=
  if uid = ownerUid then (acl.getEntry kUser 0).accessRights
  else
    let userEntry := acl.getEntry kNamedUser uid
    if userEntry.type ≠ kInvalid then acl.applyMask userEntry.accessRights
    else
      let owning : UInt8 × Bool :=
        if groups.contains ownerGid then ((acl.getEntry kGroup 0).accessRights, true) else (0, false)
      let (accessRights, found) := groups.foldl (fun (current : UInt8 × Bool) id =>
        let groupEntry := acl.getEntry kNamedGroup id
        if groupEntry.type ≠ kInvalid then (current.1 ||| groupEntry.accessRights, true) else current)
        owning
      if found then acl.applyMask accessRights else (acl.getEntry kOther 0).accessRights

end AccessControlList

end SaunaFS
