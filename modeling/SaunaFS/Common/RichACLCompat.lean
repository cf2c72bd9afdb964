import SaunaFS.Common.RichACLPosixConvert

/-! Applying the file masks to a RichACL (`src/common/richacl_compat.cc`).

`applyMasks` turns a masked acl into one without masks in seven passes over the
entries. `changeMask`, `isolateWho` and `isolateGroupClass` are in
`RichACLPosixConvert`, whose conversion uses them. The source walks a vector with
iterators and indices while it inserts and erases entries. A forward pass that
hands each entry to `changeMask` and goes on after what `changeMask` leaves is a
recursion over the list here, with `changeMaskAce` for what is left in place of
the entry; a pass that edits one position found by a scan works by index, as
`isolateWho` does.
-/

set_option autoImplicit false

namespace SaunaFS

namespace RichACL

open Ace

/-! ## Changing the mask of one entry -/

/-- What `changeMask` leaves in place of the entry under its iterator; the
iterator it returns points past these entries. -/
def changeMaskAce (ace : Ace) (mask : UInt32) : List Ace :=
  if mask ≠ 0 ∧ ace.mask = mask then [ace.setFlags (ace.flags &&& ~~~kInheritOnlyAce)]
  else if mask &&& ~~~kPosixAlwaysAllowed ≠ 0 then
    if ace.isInheritable then
      -- an inherit-only copy keeps the inheritance; the entry itself loses it
      [ace.setFlags (ace.flags ||| kInheritOnlyAce),
        (ace.setFlags (ace.flags &&& (~~~kInheritanceFlags ||| kInheritedAce))).setMask mask]
    else [ace.setMask mask]
  else if ace.isInheritable then [ace.setFlags (ace.flags ||| kInheritOnlyAce)]
  else []

/-- Setting position `i` and inserting before it: the new entry and the set one
stand in place of the old entry. -/
theorem insertIdx_set_self {α : Type} (a b : α) :
    ∀ (l : List α) (i : Nat), i < l.length → (l.set i b).insertIdx i a = l.take i ++ a :: b :: l.drop (i + 1)
  | _ :: _, 0, _ => rfl
  | x :: rest, i + 1, bound => by
    have inner := insertIdx_set_self a b rest i (by simpa using bound)
    simp [List.insertIdx_succ_cons, inner]

/-- `changeMask` at a stored entry leaves `changeMaskAce` in its place: the forward
passes below, which recurse over the list, make the same edits. -/
theorem changeMask_eq {acl : RichACL} {i : Nat} {ace : Ace} (stored : acl.aceList[i]? = some ace)
    (mask : UInt32) :
    acl.changeMask i mask =
      { acl with aceList := acl.aceList.take i ++ changeMaskAce ace mask ++ acl.aceList.drop (i + 1) } := by
  have bound : i < acl.aceList.length := (List.getElem?_eq_some_iff.mp stored).1
  have setAt (entry : Ace) : acl.aceList.set i entry = acl.aceList.take i ++ entry :: acl.aceList.drop (i + 1) := by
    rw [List.set_eq_take_append_cons_drop, if_pos bound]
  rw [changeMask, stored]
  dsimp only
  unfold changeMaskAce
  by_cases same : mask ≠ 0 ∧ ace.mask = mask
  · simp only [if_pos same, setAt, List.append_assoc, List.singleton_append]
  simp only [if_neg same]
  by_cases widened : mask &&& ~~~kPosixAlwaysAllowed ≠ 0
  · simp only [if_pos widened]
    cases ace.isInheritable
    · simp [setAt]
    · simp [insertIdx_set_self _ _ _ _ bound]
  simp only [if_neg widened]
  cases ace.isInheritable
  · simp [List.eraseIdx_eq_take_drop_succ]
  · simp [setAt]

/-! ## The passes -/

/-- The loop of `moveEveryoneAcesDown` from the iterator on, with its `allowed`
and `denied`: the entries it leaves and the final `allowed`. -/
def moveEveryoneAcesDownLoop : List Ace → UInt32 → UInt32 → List Ace × UInt32
  | [], allowed, _ => ([], allowed)
  | ace :: rest, allowed, denied =>
    if ace.isInheritOnly || !(ace.isAllow || ace.isDeny) then
      let after := moveEveryoneAcesDownLoop rest allowed denied
      (ace :: after.1, after.2)
    else if ace.isEveryone then
      -- the entry's bits join `allowed` or `denied` and the entry goes
      let after :=
        if ace.isAllow then moveEveryoneAcesDownLoop rest (allowed ||| (ace.mask &&& ~~~denied)) denied
        else moveEveryoneAcesDownLoop rest allowed (denied ||| (ace.mask &&& ~~~allowed))
      (changeMaskAce ace 0 ++ after.1, after.2)
    else
      let mask :=
        if ace.isAllow then allowed ||| (ace.mask &&& ~~~denied) else denied ||| (ace.mask &&& ~~~allowed)
      let after := moveEveryoneAcesDownLoop rest allowed denied
      (changeMaskAce ace mask ++ after.1, after.2)

/-- `RichACL::moveEveryoneAcesDown`: the everyone@ entries are folded into the
others and what they allow comes back as one everyone@ allow entry at the end. -/
def moveEveryoneAcesDown (acl : RichACL) : RichACL :=
  let (aces, allowed) := moveEveryoneAcesDownLoop acl.aceList 0 0
  let everyone := make kAccessAllowedAceType kSpecialWho allowed kEveryoneSpecialId
  if allowed &&& ~~~kPosixAlwaysAllowed = 0 then { acl with aceList := aces }
  else
    match aces.getLast? with
    | some last =>
      if last.isEveryone && last.isAllow && last.isInheritOnly && last.mask == allowed then
        -- the source clears kInheritOnlyAce in the entry's mask, not in its flags
        { acl with aceList := aces.dropLast ++ [last.setMask (last.mask &&& ~~~kInheritOnlyAce)] }
      else { acl with aceList := aces ++ [everyone] }
    | none => { acl with aceList := aces ++ [everyone] }

/-- The scan of `propagateEveryone(who, allow)` from index `i` on: what is left of
`allow`, and `allow_last`, the last allow entry of `who` that no later deny entry
of another identifier cuts. -/
def propagateScan (who : Ace) :
    List Ace → Nat → UInt32 → Option (Nat × Ace) → UInt32 × Option (Nat × Ace)
  | [], _, allow, allowLast => (allow, allowLast)
  | ace :: rest, i, allow, allowLast =>
    if ace.isInheritOnly then propagateScan who rest (i + 1) allow allowLast
    else if ace.isAllow then
      if ace.isSameIdentifier who then propagateScan who rest (i + 1) (allow &&& ~~~ace.mask) (some (i, ace))
      else propagateScan who rest (i + 1) allow allowLast
    else if ace.isDeny then
      if ace.isSameIdentifier who then propagateScan who rest (i + 1) (allow &&& ~~~ace.mask) allowLast
      else if allow &&& ace.mask ≠ 0 then propagateScan who rest (i + 1) allow none
      else propagateScan who rest (i + 1) allow allowLast
    else propagateScan who rest (i + 1) allow allowLast

/-- `RichACL::propagateEveryone(who, allow)`: `who` gets the bits of `allow` it
does not have yet, in its last allow entry or in a new one before the last entry. -/
def propagateEveryoneTo (acl : RichACL) (who : Ace) (allow : UInt32) : RichACL :=
  let (allow, allowLast) := propagateScan who acl.aceList 0 allow none
  match acl.aceList.getLast? with
  | none => acl
  | some last =>
    -- nothing to add when the last everyone@ entry already grants it to the other class
    let allow :=
      if !last.isOwner && last.isEveryone && allow &&& ~~~(last.mask &&& acl.otherMask) == 0 then 0
      else allow
    if allow = 0 then acl
    else
      match allowLast with
      | some (i, ace) => acl.changeMask i (ace.mask ||| allow)
      | none =>
        { acl with
          aceList := acl.aceList.insertIdx (acl.aceList.length - 1)
            (Ace.make kAccessAllowedAceType (who.flags &&& ~~~kInheritanceFlags) allow who.id) }

/-- The last loop of `propagateEveryone()` over positions `n - 1` down to `0`: every
named entry gets what the everyone@ entry allows the group class. -/
def propagateEntriesBelow (groupAllow : UInt32) : Nat → RichACL → RichACL
  | 0, acl => acl
  | n + 1, acl =>
    match acl.aceList[n]? with
    | none => propagateEntriesBelow groupAllow n acl
    | some ace =>
      if ace.isInheritOnly || ace.isOwner || ace.isGroup then propagateEntriesBelow groupAllow n acl
      else propagateEntriesBelow groupAllow n (acl.propagateEveryoneTo ace groupAllow)

/-- `RichACL::propagateEveryone()`: what the last everyone@ entry allows beyond
the other class's mask is given to owner@, group@ and each named entry. -/
def propagateEveryone (acl : RichACL) : RichACL :=
  match acl.aceList.getLast? with
  | none => acl
  | some last =>
    if last.isInheritOnly || !last.isEveryone then acl
    else
      let ownerAllow := last.mask &&& acl.ownerMask
      let groupAllow := last.mask &&& acl.groupMask
      let acl :=
        if ownerAllow &&& ~~~(acl.groupMask &&& acl.otherMask) ≠ 0 then
          acl.propagateEveryoneTo (Ace.make 0 kSpecialWho 0 kOwnerSpecialId) ownerAllow
        else acl
      if groupAllow &&& ~~~acl.otherMask ≠ 0 then
        let acl := acl.propagateEveryoneTo (Ace.make 0 kSpecialWho 0 kGroupSpecialId) groupAllow
        propagateEntriesBelow groupAllow (acl.aceList.length - 1) acl
      else acl

/-- The loop of `applyMasks2AceList`: every allow entry is cut down to the mask of
its class. -/
def applyMasks2AceListLoop (acl : RichACL) (owner : UInt32) : List Ace → List Ace
  | [] => []
  | ace :: rest =>
    if ace.isInheritOnly || !ace.isAllow then ace :: applyMasks2AceListLoop acl owner rest
    else
      let mask :=
        if ace.isOwner || (ace.isUnixUser && owner == ace.id) then acl.ownerMask
        else if ace.isEveryone then acl.otherMask
        else acl.groupMask
      changeMaskAce ace (ace.mask &&& mask) ++ applyMasks2AceListLoop acl owner rest

/-- `RichACL::applyMasks2AceList`. -/
def applyMasks2AceList (acl : RichACL) (owner : UInt32) : RichACL :=
  { acl with aceList := applyMasks2AceListLoop acl owner acl.aceList }

/-- `RichACL::setOtherPermissions(added)`, returning what it leaves in `added`:
under write-through the last everyone@ entry allows exactly the other mask. -/
def setOtherPermissions (acl : RichACL) (added : UInt32) : RichACL × UInt32 :=
  let otherMask := acl.otherMask &&& ~~~kPosixAlwaysAllowed
  let everyone := make kAccessAllowedAceType kSpecialWho otherMask kEveryoneSpecialId
  if !(otherMask != 0 && acl.isWriteThrough) then (acl, added)
  else
    match acl.aceList.getLast? with
    | some last =>
      if !last.isEveryone || last.isInheritOnly then ({ acl with aceList := acl.aceList ++ [everyone] }, otherMask)
      else
        (acl.changeMask (acl.aceList.length - 1) otherMask, otherMask &&& ~~~last.mask)
    | none => ({ acl with aceList := acl.aceList ++ [everyone] }, otherMask)

/-- `RichACL::getMaxAllowed`: the entries read from the last to the first. -/
def getMaxAllowed (acl : RichACL) : UInt32 :=
  acl.aceList.foldr (fun ace allowed =>
    if ace.isInheritOnly then allowed
    else if ace.isAllow then allowed ||| ace.mask
    else if ace.isDeny && ace.isEveryone then allowed &&& ~~~ace.mask
    else allowed) 0

/-- The first loop of `isolateOwnerClass` from index `i` on: the owner@ entry it
widens, met before any allow entry. -/
def ownerDenyEntry : List Ace → Nat → Option (Nat × Ace)
  | [], _ => none
  | ace :: rest, i =>
    if ace.isInheritOnly then ownerDenyEntry rest (i + 1)
    else if ace.isAllow then none
    else if ace.isOwner then some (i, ace)
    else ownerDenyEntry rest (i + 1)

/-- `RichACL::isolateOwnerClass`: owner@ is denied what the entries allow beyond
the owner mask. -/
def isolateOwnerClass (acl : RichACL) : RichACL :=
  let deny := acl.getMaxAllowed &&& ~~~acl.ownerMask
  if deny = 0 then acl
  else
    match ownerDenyEntry acl.aceList 0 with
    | some (i, ace) => acl.changeMask i (ace.mask ||| deny)
    | none =>
      { acl with aceList := make kAccessDeniedAceType kSpecialWho deny kOwnerSpecialId :: acl.aceList }

/-- The loop of `setOwnerPermissions` with its `owner_mask` and `denied`: the
entries it leaves and the final values of both. Unlike the other passes it does
not skip inherit-only entries. -/
def setOwnerPermissionsLoop : List Ace → UInt32 → UInt32 → List Ace × UInt32 × UInt32
  | [], ownerMask, denied => ([], ownerMask, denied)
  | ace :: rest, ownerMask, denied =>
    if ace.isOwner then
      if ace.isAllow && ownerMask &&& denied == 0 then
        let after := setOwnerPermissionsLoop rest 0 denied
        (changeMaskAce ace ownerMask ++ after.1, after.2)
      else
        let after := setOwnerPermissionsLoop rest ownerMask denied
        (changeMaskAce ace 0 ++ after.1, after.2)
    else
      let after := setOwnerPermissionsLoop rest ownerMask (if ace.isDeny then denied ||| ace.mask else denied)
      (ace :: after.1, after.2)

/-- `RichACL::setOwnerPermissions`: under write-through owner@ is allowed exactly
the owner mask. -/
def setOwnerPermissions (acl : RichACL) : RichACL :=
  if !acl.isWriteThrough then acl
  else
    let (aces, ownerMask, denied) :=
      setOwnerPermissionsLoop acl.aceList (acl.ownerMask &&& ~~~kPosixAlwaysAllowed) 0
    if ownerMask &&& (denied ||| ~~~acl.otherMask ||| ~~~acl.groupMask) ≠ 0 then
      { acl with aceList := make kAccessAllowedAceType kSpecialWho ownerMask kOwnerSpecialId :: aces }
    else { acl with aceList := aces }

/-- `RichACL::applyMasks(owner)`, exported as `sau_acl_apply_masks`. -/
def applyMasks (acl : RichACL) (owner : UInt32) : RichACL :=
  if !acl.isMasked then acl
  else
    let acl := (acl.moveEveryoneAcesDown.propagateEveryone).applyMasks2AceList owner
    let (acl, added) := acl.setOtherPermissions 0
    let acl := ((acl.isolateGroupClass added).setOwnerPermissions).isolateOwnerClass
    { acl with flags := acl.flags &&& ~~~(kWriteThrough ||| kMasked) }


/-! ## What the passes keep -/

/-- `acl'` has the masks and flags of `acl`: a pass changed at most the entries. -/
def SameHeader (acl acl' : RichACL) : Prop :=
  acl'.ownerMask = acl.ownerMask ∧ acl'.groupMask = acl.groupMask ∧ acl'.otherMask = acl.otherMask ∧
    acl'.flags = acl.flags

theorem SameHeader.refl (acl : RichACL) : SameHeader acl acl := ⟨rfl, rfl, rfl, rfl⟩

theorem SameHeader.trans {acl acl' acl'' : RichACL} (first : SameHeader acl acl')
    (second : SameHeader acl' acl'') : SameHeader acl acl'' :=
  ⟨second.1.trans first.1, second.2.1.trans first.2.1, second.2.2.1.trans first.2.2.1,
    second.2.2.2.trans first.2.2.2⟩

theorem sameHeader_entries (acl : RichACL) (aces : List Ace) :
    SameHeader acl { acl with aceList := aces } := ⟨rfl, rfl, rfl, rfl⟩

theorem changeMask_sameHeader (acl : RichACL) (i : Nat) (mask : UInt32) :
    SameHeader acl (acl.changeMask i mask) := by
  unfold changeMask
  split
  · exact SameHeader.refl acl
  · repeat' split
    all_goals exact sameHeader_entries _ _

theorem moveEveryoneAcesDown_sameHeader (acl : RichACL) : SameHeader acl acl.moveEveryoneAcesDown := by
  unfold moveEveryoneAcesDown
  dsimp only
  repeat' split
  all_goals exact sameHeader_entries _ _

theorem propagateEveryoneTo_sameHeader (acl : RichACL) (who : Ace) (allow : UInt32) :
    SameHeader acl (acl.propagateEveryoneTo who allow) := by
  unfold propagateEveryoneTo
  dsimp only
  repeat' split
  all_goals first
    | exact changeMask_sameHeader _ _ _
    | exact sameHeader_entries _ _

theorem propagateEntriesBelow_sameHeader (groupAllow : UInt32) :
    ∀ n acl, SameHeader acl (propagateEntriesBelow groupAllow n acl)
  | 0, acl => SameHeader.refl acl
  | n + 1, acl => by
    unfold propagateEntriesBelow
    split
    · exact propagateEntriesBelow_sameHeader groupAllow n acl
    split
    · exact propagateEntriesBelow_sameHeader groupAllow n acl
    · exact (propagateEveryoneTo_sameHeader _ _ _).trans (propagateEntriesBelow_sameHeader groupAllow n _)

theorem propagateEveryone_sameHeader (acl : RichACL) : SameHeader acl acl.propagateEveryone := by
  unfold propagateEveryone
  split
  · exact SameHeader.refl acl
  split
  · exact SameHeader.refl acl
  dsimp only
  -- one goal for each choice of the owner@ step and of the group@ step with its loop
  split <;> split
  · exact (propagateEveryoneTo_sameHeader _ _ _).trans
      ((propagateEveryoneTo_sameHeader _ _ _).trans (propagateEntriesBelow_sameHeader _ _ _))
  · exact propagateEveryoneTo_sameHeader _ _ _
  · exact (propagateEveryoneTo_sameHeader _ _ _).trans (propagateEntriesBelow_sameHeader _ _ _)
  · exact SameHeader.refl acl

theorem applyMasks2AceList_sameHeader (acl : RichACL) (owner : UInt32) :
    SameHeader acl (acl.applyMasks2AceList owner) := sameHeader_entries _ _

theorem setOtherPermissions_sameHeader (acl : RichACL) (added : UInt32) :
    SameHeader acl (acl.setOtherPermissions added).1 := by
  unfold setOtherPermissions
  dsimp only
  split
  · exact SameHeader.refl acl
  split
  · split
    · exact sameHeader_entries _ _
    · exact changeMask_sameHeader _ _ _
  · exact sameHeader_entries _ _

theorem isolateOwnerClass_sameHeader (acl : RichACL) : SameHeader acl acl.isolateOwnerClass := by
  unfold isolateOwnerClass
  dsimp only
  split
  · exact SameHeader.refl acl
  split
  · exact changeMask_sameHeader _ _ _
  · exact sameHeader_entries _ _

theorem isolateWho_sameHeader (acl : RichACL) (who : Ace) (deny : UInt32) :
    SameHeader acl (acl.isolateWho who deny) := by
  unfold isolateWho
  dsimp only
  split
  · exact SameHeader.refl acl
  split
  · exact changeMask_sameHeader _ _ _
  · exact sameHeader_entries _ _

theorem isolateEntriesBelow_sameHeader (deny : UInt32) :
    ∀ n acl, SameHeader acl (isolateEntriesBelow deny n acl)
  | 0, acl => SameHeader.refl acl
  | n + 1, acl => by
    unfold isolateEntriesBelow
    split
    · exact isolateEntriesBelow_sameHeader deny n acl
    split
    · exact isolateEntriesBelow_sameHeader deny n acl
    · exact (isolateWho_sameHeader _ _ _).trans (isolateEntriesBelow_sameHeader deny n _)

theorem isolateGroupClass_sameHeader (acl : RichACL) (deny : UInt32) :
    SameHeader acl (acl.isolateGroupClass deny) := by
  unfold isolateGroupClass
  split
  · exact SameHeader.refl acl
  split
  · exact SameHeader.refl acl
  dsimp only
  split
  · exact SameHeader.refl acl
  · exact (isolateWho_sameHeader _ _ _).trans (isolateEntriesBelow_sameHeader _ _ _)

theorem setOwnerPermissions_sameHeader (acl : RichACL) : SameHeader acl acl.setOwnerPermissions := by
  unfold setOwnerPermissions
  dsimp only
  split
  · exact SameHeader.refl acl
  split
  · exact sameHeader_entries _ _
  · exact sameHeader_entries _ _

/-- Every pass changes the entries only; `applyMasks` then clears the two flags. -/
theorem applyMasks_header (acl : RichACL) (owner : UInt32) (masked : acl.isMasked = true) :
    SameHeader { acl with flags := acl.flags &&& ~~~(kWriteThrough ||| kMasked) } (acl.applyMasks owner) := by
  have passes := (((moveEveryoneAcesDown_sameHeader acl).trans (propagateEveryone_sameHeader _)).trans
    (applyMasks2AceList_sameHeader _ owner)).trans (setOtherPermissions_sameHeader _ 0)
  rw [applyMasks, if_neg (by simp [masked])]
  dsimp only
  let other := (acl.moveEveryoneAcesDown.propagateEveryone.applyMasks2AceList owner).setOtherPermissions 0
  have whole := passes.trans (((isolateGroupClass_sameHeader other.1 other.2).trans
    (setOwnerPermissions_sameHeader _)).trans (isolateOwnerClass_sameHeader _))
  exact ⟨whole.1, whole.2.1, whole.2.2.1, congrArg (· &&& ~~~(kWriteThrough ||| kMasked)) whole.2.2.2⟩

/-- The acl `applyMasks` leaves is not masked and not write-through. -/
theorem applyMasks_unmasks (acl : RichACL) (owner : UInt32) (masked : acl.isMasked = true) :
    (acl.applyMasks owner).isMasked = false ∧ (acl.applyMasks owner).isWriteThrough = false := by
  have flags := (applyMasks_header acl owner masked).2.2.2
  have cleared : ~~~(kWriteThrough ||| kMasked) &&& kMasked = 0 ∧
      ~~~(kWriteThrough ||| kMasked) &&& kWriteThrough = 0 := by decide
  simp [isMasked, isWriteThrough, flags, UInt16.and_assoc, cleared.1, cleared.2]

/-! ## An everyone@ entry with an inheritable copy -/

/-- The masking pass never touches an inherit-only entry. -/
theorem applyMasks2AceListLoop_of_inheritOnly (acl : RichACL) (owner : UInt32) :
    ∀ aces : List Ace, (∀ ace ∈ aces, ace.isInheritOnly = true) →
      applyMasks2AceListLoop acl owner aces = aces
  | [], _ => rfl
  | ace :: rest, inheritOnly => by
    rw [applyMasks2AceListLoop, if_pos (by simp [inheritOnly ace List.mem_cons_self]),
      applyMasks2AceListLoop_of_inheritOnly acl owner rest
        fun other member => inheritOnly other (List.mem_cons_of_mem ace member)]

/-- A directory acl whose everyone@ allow entry has an inheritable copy: the
first pass folds the entry away and, meaning to reuse the copy, clears
kInheritOnlyAce in its mask, so the copy stays inherit-only. For every owner and
requester the masked acl grants read and the acl `applyMasks` leaves denies it. -/
theorem applyMasks_loses_everyone_allow (owner ownerGid uid : UInt32) (groups : List UInt32) :
    let everyone := make kAccessAllowedAceType kSpecialWho kReadData kEveryoneSpecialId
    let inherited := make kAccessAllowedAceType
      (kSpecialWho ||| kFileInheritAce ||| kDirectoryInheritAce ||| kInheritOnlyAce) kReadData
      kEveryoneSpecialId
    let acl : RichACL :=
      ⟨kPosixModeRead ||| kPosixModeWrite, kPosixModeRead, kPosixModeRead, kMasked, [everyone, inherited]⟩
    acl.checkPermission kReadData owner ownerGid uid groups = true ∧
      (acl.applyMasks owner).checkPermission kReadData owner ownerGid uid groups = false := by
  intro everyone inherited acl
  have moved : acl.moveEveryoneAcesDown.propagateEveryone = { acl with aceList := [inherited] } := by
    decide
  have masked : ({ acl with aceList := [inherited] } : RichACL).applyMasks2AceList owner =
      { acl with aceList := [inherited] } :=
    congrArg _ (applyMasks2AceListLoop_of_inheritOnly _ owner [inherited] (by decide))
  have applied : acl.applyMasks owner = { acl with flags := 0, aceList := [inherited] } := by
    simp only [applyMasks, moved, masked]
    decide
  constructor
  · -- the everyone@ entry decides the read bit for every requester
    have first : (CheckState.apply ⟨kReadData, 0, groups.contains ownerGid⟩ everyone everyone.mask
        (groups.contains ownerGid)).Settled := by
      cases groups.contains ownerGid <;> decide
    apply checkPermission_masked_of_settled acl _ _ _ _ _ (by decide) (by decide) (by decide) (by decide)
    show (checkAces acl owner uid groups _ [everyone, inherited] _).Settled
    rw [checkAces, @matchEntry_of_isEveryone everyone (by decide) (by decide)]
    dsimp only
    split
    · exact first
    · exact checkAces_settled acl owner uid groups _ [inherited] _ first
  · rw [applied]
    exact checkPermission_of_inheritOnly _ _ _ _ _ _ (by decide) (by decide) (by decide)

end RichACL

end SaunaFS
