import Mathlib.Data.Prod.Lex
import RealmAccess.Proofs.Grouping
import RealmAccess.Proofs.NameTable
import RealmAccess.Proofs.Order
/-!
# Compaction keeps every grant and nothing else

`compact` groups grants twice: the permissions of each principal under each list of conditions,
then the principals of each joined permission set under each list of conditions. What a list of
bindings grants is `BindingRecord.Holds`: a principal holds a permission under a list of
conditions. Compaction changes how grants are written and never what they are
(`holds_compact`). Each principal appears under one list of conditions in one binding only, and
no two bindings share their permissions and conditions.
-/

namespace RealmAccess

/-- Bindings are ordered by permissions, then conditions, then principals. -/
def BindingRecord.key (record : BindingRecord) : List Nat ×ₗ (List Nat ×ₗ List String) :=
  toLex (record.permissions, toLex (record.conditions, record.principals))

theorem BindingRecord.compare_ne_gt_iff (a b : BindingRecord) :
    (a.compare b != .gt) = true ↔ a.key ≤ b.key := by
  unfold BindingRecord.compare key
  rw [Prod.Lex.toLex_le_toLex, Prod.Lex.toLex_le_toLex,
    Order.compareLex_eq_ite (fun _ _ => rfl) a.permissions,
    Order.compareLex_eq_ite (fun _ _ => rfl) a.conditions,
    Order.compareLex_eq_ite (fun _ _ => rfl) a.principals]
  rcases lt_trichotomy a.permissions b.permissions with below | same | above
  · simp [below]
  · rcases lt_trichotomy a.conditions b.conditions with below' | same' | above'
    · simp [same, below']
    · rcases lt_trichotomy a.principals b.principals with below'' | same'' | above''
      · simp [same, same', below'', le_of_lt below'']
      · simp [same, same', same'']
      · simp [same, same', not_lt_of_gt above'', ne_of_gt above'', not_le_of_gt above'']
    · simp [same, not_lt_of_gt above', ne_of_gt above']
  · simp [not_lt_of_gt above, ne_of_gt above]

theorem BindingRecord.mem_sortAll {records : List BindingRecord} {record : BindingRecord} :
    record ∈ BindingRecord.sortAll records ↔ record ∈ records :=
  List.mem_mergeSort

/-- In `bindings`, `principal` holds permission `permission` when all of `conditions` hold. -/
def BindingRecord.Holds (bindings : List BindingRecord) (principal : String) (permission : Nat)
    (conditions : List Nat) : Prop :=
  ∃ binding ∈ bindings, principal ∈ binding.principals ∧ permission ∈ binding.permissions ∧
    binding.conditions = conditions

/-! ### The two passes of compaction -/

/-- The first pass, keyed by principal and conditions. -/
abbrev principalItems (grants : List Grant) : List ((String × List Nat) × List Nat) :=
  grants.map fun grant => ((grant.principal, grant.conditions), grant.permissions)

/-- The second pass, keyed by joined permissions and conditions. -/
abbrev permissionItems (joined : List ((String × List Nat) × List Nat)) :
    List ((List Nat × List Nat) × List String) :=
  joined.map fun entry => ((Order.sortNats entry.2, entry.1.2), [entry.1.1])

theorem joinByPrincipal_eq (grants : List Grant) :
    joinByPrincipal grants = groupAll (principalItems grants) := by
  unfold joinByPrincipal groupAll
  rw [List.foldl_map]

theorem groupByPermissions_eq (joined : List ((String × List Nat) × List Nat)) :
    groupByPermissions joined = groupAll (permissionItems joined) := by
  unfold groupByPermissions groupAll
  rw [List.foldl_map]

/-- The binding a group of the second pass becomes. -/
abbrev recordOf (entry : (List Nat × List Nat) × List String) : BindingRecord :=
  { permissions := entry.1.1, principals := Order.sortStrings entry.2, conditions := entry.1.2 }

theorem compact_eq (grants : List Grant) :
    compact grants =
      BindingRecord.sortAll ((groupAll (permissionItems (groupAll (principalItems grants)))).map
        recordOf) := by
  unfold compact
  rw [joinByPrincipal_eq, groupByPermissions_eq]

section Passes

variable {grants : List Grant} {joined : List ((String × List Nat) × List Nat)}

theorem joined_key {entry : (String × List Nat) × List Nat}
    (member : entry ∈ groupAll (principalItems grants)) :
    ∃ grant ∈ grants, (grant.principal, grant.conditions) = entry.1 := by
  obtain ⟨item, itemMember, named⟩ := (groupsOf_groupAll _).key_of_mem member
  obtain ⟨grant, grantMember, rfl⟩ := List.mem_map.mp itemMember
  exact ⟨grant, grantMember, named⟩

theorem mem_joined_values {entry : (String × List Nat) × List Nat}
    (member : entry ∈ groupAll (principalItems grants)) {permission : Nat} :
    permission ∈ entry.2 ↔
      ∃ grant ∈ grants, (grant.principal, grant.conditions) = entry.1 ∧
        permission ∈ grant.permissions := by
  rw [(groupsOf_groupAll _).values entry member permission]
  constructor
  · rintro ⟨item, itemMember, named, listed⟩
    obtain ⟨grant, grantMember, rfl⟩ := List.mem_map.mp itemMember
    exact ⟨grant, grantMember, named, listed⟩
  · rintro ⟨grant, grantMember, named, listed⟩
    exact ⟨_, List.mem_map_of_mem grantMember, named, listed⟩

theorem joined_of_grant {grant : Grant} (member : grant ∈ grants) :
    ∃ entry ∈ groupAll (principalItems grants), entry.1 = (grant.principal, grant.conditions) :=
  (groupsOf_groupAll _).entry_of_item (List.mem_map_of_mem member)

theorem groups_key {entry : (List Nat × List Nat) × List String}
    (member : entry ∈ groupAll (permissionItems joined)) :
    ∃ j ∈ joined, (Order.sortNats j.2, j.1.2) = entry.1 := by
  obtain ⟨item, itemMember, named⟩ := (groupsOf_groupAll _).key_of_mem member
  obtain ⟨j, jMember, rfl⟩ := List.mem_map.mp itemMember
  exact ⟨j, jMember, named⟩

theorem mem_groups_values {entry : (List Nat × List Nat) × List String}
    (member : entry ∈ groupAll (permissionItems joined)) {principal : String} :
    principal ∈ entry.2 ↔ ∃ j ∈ joined, (Order.sortNats j.2, j.1.2) = entry.1 ∧ j.1.1 = principal := by
  rw [(groupsOf_groupAll _).values entry member principal]
  constructor
  · rintro ⟨item, itemMember, named, listed⟩
    obtain ⟨j, jMember, rfl⟩ := List.mem_map.mp itemMember
    exact ⟨j, jMember, named, (List.mem_singleton.mp listed).symm⟩
  · rintro ⟨j, jMember, named, rfl⟩
    exact ⟨_, List.mem_map_of_mem jMember, named, List.mem_singleton_self _⟩

theorem groups_of_joined {j : (String × List Nat) × List Nat} (member : j ∈ joined) :
    ∃ entry ∈ groupAll (permissionItems joined), entry.1 = (Order.sortNats j.2, j.1.2) :=
  (groupsOf_groupAll _).entry_of_item (List.mem_map_of_mem member)

end Passes

theorem mem_compact {grants : List Grant} {record : BindingRecord} :
    record ∈ compact grants ↔
      ∃ entry ∈ groupAll (permissionItems (groupAll (principalItems grants))),
        record = recordOf entry := by
  rw [compact_eq, BindingRecord.mem_sortAll, List.mem_map]
  constructor
  · rintro ⟨entry, member, rfl⟩
    exact ⟨entry, member, rfl⟩
  · rintro ⟨entry, member, rfl⟩
    exact ⟨entry, member, rfl⟩

/-- Compaction keeps exactly the grants it is given: a principal holds a permission under a
list of conditions afterwards exactly when some grant gave it. -/
theorem holds_compact {grants : List Grant} {principal : String} {permission : Nat}
    {conditions : List Nat} :
    BindingRecord.Holds (compact grants) principal permission conditions ↔
      ∃ grant ∈ grants, grant.principal = principal ∧ permission ∈ grant.permissions ∧
        grant.conditions = conditions := by
  constructor
  · rintro ⟨record, member, named, listed, rfl⟩
    obtain ⟨entry, entryMember, rfl⟩ := mem_compact.mp member
    obtain ⟨j, jMember, jKey, rfl⟩ :=
      (mem_groups_values entryMember).mp (Order.mem_sortStrings.mp named)
    have inJoined : permission ∈ j.2 := by
      change permission ∈ entry.1.1 at listed
      rw [← jKey] at listed
      exact Order.mem_sortNats.mp listed
    obtain ⟨grant, grantMember, grantKey, granted⟩ := (mem_joined_values jMember).mp inJoined
    refine ⟨grant, grantMember, congrArg Prod.fst grantKey, granted, ?_⟩
    show grant.conditions = entry.1.2
    rw [← jKey]
    exact congrArg Prod.snd grantKey
  · rintro ⟨grant, grantMember, rfl, granted, rfl⟩
    obtain ⟨j, jMember, jKey⟩ := joined_of_grant grantMember
    have inJoined : permission ∈ j.2 :=
      (mem_joined_values jMember).mpr ⟨grant, grantMember, jKey.symm, granted⟩
    obtain ⟨entry, entryMember, entryKey⟩ := groups_of_joined jMember
    have principalListed : grant.principal ∈ entry.2 :=
      (mem_groups_values entryMember).mpr ⟨j, jMember, entryKey.symm, by rw [jKey]⟩
    refine ⟨recordOf entry, mem_compact.mpr ⟨entry, entryMember, rfl⟩,
      Order.mem_sortStrings.mpr principalListed, ?_, ?_⟩
    · show permission ∈ entry.1.1
      rw [entryKey]
      exact Order.mem_sortNats.mpr inJoined
    · show entry.1.2 = grant.conditions
      rw [entryKey, jKey]

/-- In `bindings`, `principal` is listed in a binding under `conditions`. -/
def BindingRecord.Appears (bindings : List BindingRecord) (principal : String)
    (conditions : List Nat) : Prop :=
  ∃ binding ∈ bindings, principal ∈ binding.principals ∧ binding.conditions = conditions

/-- Compaction lists a principal under a list of conditions exactly when some grant does, a
grant with no permissions included. -/
theorem appears_compact {grants : List Grant} {principal : String} {conditions : List Nat} :
    BindingRecord.Appears (compact grants) principal conditions ↔
      ∃ grant ∈ grants, grant.principal = principal ∧ grant.conditions = conditions := by
  constructor
  · rintro ⟨record, member, named, rfl⟩
    obtain ⟨entry, entryMember, rfl⟩ := mem_compact.mp member
    obtain ⟨j, jMember, jKey, rfl⟩ :=
      (mem_groups_values entryMember).mp (Order.mem_sortStrings.mp named)
    obtain ⟨grant, grantMember, grantKey⟩ := joined_key jMember
    refine ⟨grant, grantMember, congrArg Prod.fst grantKey, ?_⟩
    show grant.conditions = entry.1.2
    rw [← jKey]
    exact congrArg Prod.snd grantKey
  · rintro ⟨grant, grantMember, rfl, rfl⟩
    obtain ⟨j, jMember, jKey⟩ := joined_of_grant grantMember
    obtain ⟨entry, entryMember, entryKey⟩ := groups_of_joined jMember
    have principalListed : grant.principal ∈ entry.2 :=
      (mem_groups_values entryMember).mpr ⟨j, jMember, entryKey.symm, by rw [jKey]⟩
    refine ⟨recordOf entry, mem_compact.mpr ⟨entry, entryMember, rfl⟩,
      Order.mem_sortStrings.mpr principalListed, ?_⟩
    show entry.1.2 = grant.conditions
    rw [entryKey, jKey]

/-! ### The shape of compacted bindings -/

theorem compact_pairs_nodup (grants : List Grant) :
    ((compact grants).map fun record => (record.permissions, record.conditions)).Nodup := by
  rw [compact_eq]
  have shuffled := ((List.mergeSort_perm
    ((groupAll (permissionItems (groupAll (principalItems grants)))).map recordOf)
    fun a b => a.compare b != .gt).map fun record => (record.permissions, record.conditions))
  refine shuffled.nodup_iff.mpr ?_
  rw [List.map_map]
  exact (groupsOf_groupAll _).distinct

/-- A principal is listed under one list of conditions in one compacted binding only. -/
theorem compact_principal_once {grants : List Grant} {a b : BindingRecord}
    (aMember : a ∈ compact grants) (bMember : b ∈ compact grants)
    (sameConditions : a.conditions = b.conditions) {principal : String}
    (inA : principal ∈ a.principals) (inB : principal ∈ b.principals) : a = b := by
  obtain ⟨entryA, entryAMember, rfl⟩ := mem_compact.mp aMember
  obtain ⟨entryB, entryBMember, rfl⟩ := mem_compact.mp bMember
  obtain ⟨jA, jAMember, jAKey, rfl⟩ :=
    (mem_groups_values entryAMember).mp (Order.mem_sortStrings.mp inA)
  obtain ⟨jB, jBMember, jBKey, named⟩ :=
    (mem_groups_values entryBMember).mp (Order.mem_sortStrings.mp inB)
  -- both joined entries belong to the principal under the same conditions, so they are one
  have sameJoinedKey : jA.1 = jB.1 := by
    have conditionsA : jA.1.2 = entryA.1.2 := congrArg Prod.snd jAKey
    have conditionsB : jB.1.2 = entryB.1.2 := congrArg Prod.snd jBKey
    change entryA.1.2 = entryB.1.2 at sameConditions
    exact Prod.ext named.symm (conditionsA.trans (sameConditions.trans conditionsB.symm))
  have sameJoined : jA = jB := (groupsOf_groupAll _).eq_of_key jAMember jBMember sameJoinedKey
  have sameEntry : entryA = entryB := by
    refine (groupsOf_groupAll _).eq_of_key entryAMember entryBMember ?_
    rw [← jAKey, ← jBKey, sameJoined]
  rw [sameEntry]

theorem compact_shape {grants : List Grant} {record : BindingRecord}
    (member : record ∈ compact grants) :
    record.permissions.SortedLT ∧ record.principals ≠ [] ∧
      ∃ grant ∈ grants, grant.conditions = record.conditions := by
  obtain ⟨entry, entryMember, rfl⟩ := mem_compact.mp member
  obtain ⟨j, jMember, jKey⟩ := groups_key entryMember
  obtain ⟨grant, grantMember, grantKey⟩ := joined_key jMember
  refine ⟨?_, ?_, ⟨grant, grantMember, ?_⟩⟩
  · show entry.1.1.SortedLT
    rw [← jKey]
    exact Order.sortNats_sortedLT _
  · have listed : j.1.1 ∈ entry.2 := (mem_groups_values entryMember).mpr ⟨j, jMember, jKey, rfl⟩
    intro empty
    have none : j.1.1 ∈ Order.sortStrings entry.2 := Order.mem_sortStrings.mpr listed
    change Order.sortStrings entry.2 = [] at empty
    rw [empty] at none
    cases none
  · show grant.conditions = entry.1.2
    rw [← jKey]
    exact congrArg Prod.snd grantKey

/-! ### Renumbering, and the canonical form -/

/-- A binding in canonical form over `permissionCount` permissions and `conditionCount`
conditions: each of its lists strictly increasing, some principal, every number in range. -/
structure BindingRecord.Canonical (permissionCount conditionCount : Nat) (binding : BindingRecord) :
    Prop where
  permissions : binding.permissions.SortedLT
  conditions : binding.conditions.SortedLT
  principals : binding.principals.SortedLT
  hasPrincipal : binding.principals ≠ []
  permissionsInRange : ∀ i ∈ binding.permissions, i < permissionCount
  conditionsInRange : ∀ j ∈ binding.conditions, j < conditionCount

/-- The bindings of an expanded realm in canonical form: each binding canonical, the bindings
strictly increasing by permissions, conditions and principals, no two with the same permissions
and conditions, and no principal in two bindings with the same conditions. -/
structure CanonicalBindings (permissionCount conditionCount : Nat) (bindings : List BindingRecord) :
    Prop where
  each : ∀ binding ∈ bindings, binding.Canonical permissionCount conditionCount
  sorted : (bindings.map BindingRecord.key).SortedLT
  distinctPairs : (bindings.map fun binding => (binding.permissions, binding.conditions)).Nodup
  principalOnce : ∀ a ∈ bindings, ∀ b ∈ bindings, a.conditions = b.conditions →
    ∀ principal ∈ a.principals, principal ∈ b.principals → a = b

/-- Bindings as compaction leaves them, their permissions numbered in `table`, with
`conditionCount` conditions. -/
structure Compacted (table : NameTable) (conditionCount : Nat) (records : List BindingRecord) :
    Prop where
  permissions : ∀ record ∈ records, record.permissions.SortedLT
  permissionsInRange : ∀ record ∈ records, ∀ i ∈ record.permissions, i < table.size
  conditions : ∀ record ∈ records, record.conditions.SortedLT
  conditionsInRange : ∀ record ∈ records, ∀ j ∈ record.conditions, j < conditionCount
  hasPrincipal : ∀ record ∈ records, record.principals ≠ []
  distinctPairs : (records.map fun record => (record.permissions, record.conditions)).Nodup
  principalOnce : ∀ a ∈ records, ∀ b ∈ records, a.conditions = b.conditions →
    ∀ principal ∈ a.principals, principal ∈ b.principals → a = b

section Renumber

variable {sorted : SortedNames} {record : BindingRecord}

theorem mem_renumber_permissions {permission : Nat} :
    permission ∈ (record.renumber sorted).permissions ↔
      ∃ old ∈ record.permissions, sorted.remap old = permission := by
  unfold BindingRecord.renumber
  rw [List.mem_mergeSort, List.mem_map]

theorem mem_renumber_principals {principal : String} :
    principal ∈ (record.renumber sorted).principals ↔ principal ∈ record.principals :=
  Order.mem_sortStrings

@[simp] theorem renumber_conditions : (record.renumber sorted).conditions = record.conditions := rfl

theorem mem_renumberAll {records : List BindingRecord} {binding : BindingRecord} :
    binding ∈ BindingRecord.renumberAll sorted records ↔
      ∃ record ∈ records, record.renumber sorted = binding := by
  unfold BindingRecord.renumberAll
  rw [BindingRecord.mem_sortAll, List.mem_map]

/-- Renumbering takes every permission to its sorted position and changes nothing else. -/
theorem holds_renumberAll {records : List BindingRecord} {principal : String} {permission : Nat}
    {conditions : List Nat} :
    BindingRecord.Holds (BindingRecord.renumberAll sorted records) principal permission conditions ↔
      ∃ old, BindingRecord.Holds records principal old conditions ∧ sorted.remap old = permission := by
  constructor
  · rintro ⟨binding, member, named, listed, rfl⟩
    obtain ⟨record, recordMember, rfl⟩ := mem_renumberAll.mp member
    obtain ⟨old, oldMember, rfl⟩ := mem_renumber_permissions.mp listed
    exact ⟨old, ⟨record, recordMember, mem_renumber_principals.mp named, oldMember, rfl⟩, rfl⟩
  · rintro ⟨old, ⟨record, recordMember, named, listed, rfl⟩, rfl⟩
    exact ⟨record.renumber sorted, mem_renumberAll.mpr ⟨record, recordMember, rfl⟩,
      mem_renumber_principals.mpr named, mem_renumber_permissions.mpr ⟨old, listed, rfl⟩, rfl⟩

theorem appears_renumberAll {records : List BindingRecord} {principal : String}
    {conditions : List Nat} :
    BindingRecord.Appears (BindingRecord.renumberAll sorted records) principal conditions ↔
      BindingRecord.Appears records principal conditions := by
  constructor
  · rintro ⟨binding, member, named, rfl⟩
    obtain ⟨record, recordMember, rfl⟩ := mem_renumberAll.mp member
    exact ⟨record, recordMember, mem_renumber_principals.mp named, rfl⟩
  · rintro ⟨record, recordMember, named, rfl⟩
    exact ⟨record.renumber sorted, mem_renumberAll.mpr ⟨record, recordMember, rfl⟩,
      mem_renumber_principals.mpr named, rfl⟩

end Renumber

/-- Compaction of grants whose numbers are in range and whose conditions are strictly
increasing leaves bindings in the shape renumbering expects. -/
theorem compacted_compact {table : NameTable} {conditionCount : Nat} {grants : List Grant}
    (permissionsInRange : ∀ grant ∈ grants, ∀ i ∈ grant.permissions, i < table.size)
    (conditionsSorted : ∀ grant ∈ grants, grant.conditions.SortedLT)
    (conditionsInRange : ∀ grant ∈ grants, ∀ j ∈ grant.conditions, j < conditionCount) :
    Compacted table conditionCount (compact grants) where
  permissions _ member := (compact_shape member).1
  permissionsInRange record member i listed := by
    obtain ⟨principal, named⟩ := List.exists_mem_of_ne_nil _ (compact_shape member).2.1
    obtain ⟨grant, grantMember, -, granted, -⟩ :=
      holds_compact.mp ⟨record, member, named, listed, rfl⟩
    exact permissionsInRange grant grantMember i granted
  conditions _ member := by
    obtain ⟨grant, grantMember, same⟩ := (compact_shape member).2.2
    rw [← same]
    exact conditionsSorted grant grantMember
  conditionsInRange _ member j listed := by
    obtain ⟨grant, grantMember, same⟩ := (compact_shape member).2.2
    rw [← same] at listed
    exact conditionsInRange grant grantMember j listed
  hasPrincipal _ member := (compact_shape member).2.1
  distinctPairs := compact_pairs_nodup grants
  principalOnce _ aMember _ bMember sameConditions _ inA inB :=
    compact_principal_once aMember bMember sameConditions inA inB

section Canonical

variable {table : NameTable} {conditionCount : Nat} {records : List BindingRecord}

theorem renumber_permissions_sortedLT (distinct : table.names.Nodup) {record : BindingRecord}
    (inRange : ∀ i ∈ record.permissions, i < table.size) (increasing : record.permissions.SortedLT) :
    (record.renumber table.sorted).permissions.SortedLT := by
  unfold BindingRecord.renumber
  apply Order.mergeSort_sortedLT fun _ _ => decide_eq_true_iff
  exact List.Nodup.map_on (fun a aMember b bMember same =>
    NameTable.remap_injective distinct (inRange a aMember) (inRange b bMember) same) increasing.nodup

theorem renumber_canonical (distinct : table.names.Nodup)
    (compacted : Compacted table conditionCount records) {record : BindingRecord}
    (member : record ∈ records) :
    (record.renumber table.sorted).Canonical table.sorted.names.length conditionCount where
  permissions := renumber_permissions_sortedLT distinct (compacted.permissionsInRange record member)
    (compacted.permissions record member)
  conditions := compacted.conditions record member
  principals := Order.sortStrings_sortedLT _
  hasPrincipal := by
    intro empty
    obtain ⟨principal, listed⟩ := List.exists_mem_of_ne_nil _ (compacted.hasPrincipal record member)
    have renamed : principal ∈ (record.renumber table.sorted).principals :=
      mem_renumber_principals.mpr listed
    rw [empty] at renamed
    cases renamed
  permissionsInRange := by
    intro i listed
    obtain ⟨old, oldMember, rfl⟩ := mem_renumber_permissions.mp listed
    exact NameTable.remap_lt (compacted.permissionsInRange record member old oldMember)
  conditionsInRange := compacted.conditionsInRange record member

/-- Renumbering keeps apart the bindings that compaction keeps apart. -/
theorem renumber_pair_injective (distinct : table.names.Nodup)
    (compacted : Compacted table conditionCount records) {a b : BindingRecord}
    (aMember : a ∈ records) (bMember : b ∈ records)
    (same : ((a.renumber table.sorted).permissions, (a.renumber table.sorted).conditions) =
      ((b.renumber table.sorted).permissions, (b.renumber table.sorted).conditions)) : a = b := by
  -- equal renumbered permissions come from equal permissions, since renumbering is one-to-one
  have transfer : ∀ {x y : BindingRecord}, x ∈ records → y ∈ records →
      (x.renumber table.sorted).permissions = (y.renumber table.sorted).permissions →
        ∀ i ∈ x.permissions, i ∈ y.permissions := by
    intro x y xMember yMember sameRenumbered i listed
    have renamed : table.sorted.remap i ∈ (y.renumber table.sorted).permissions := by
      rw [← sameRenumbered]
      exact mem_renumber_permissions.mpr ⟨i, listed, rfl⟩
    obtain ⟨j, jMember, sameRemap⟩ := mem_renumber_permissions.mp renamed
    have sameIndex : j = i := NameTable.remap_injective distinct
      (compacted.permissionsInRange y yMember j jMember)
      (compacted.permissionsInRange x xMember i listed) sameRemap
    rw [← sameIndex]
    exact jMember
  have samePermissions : a.permissions = b.permissions :=
    List.SortedLT.eq_of_mem_iff (compacted.permissions a aMember) (compacted.permissions b bMember)
      fun i => ⟨transfer aMember bMember (congrArg Prod.fst same) i,
        transfer bMember aMember (congrArg Prod.fst same).symm i⟩
  have sameConditions : a.conditions = b.conditions := congrArg Prod.snd same
  exact List.inj_on_of_nodup_map compacted.distinctPairs aMember bMember
    (Prod.ext samePermissions sameConditions)

/-- Renumbered compacted bindings are in canonical form. -/
theorem canonical_renumberAll (distinct : table.names.Nodup)
    (compacted : Compacted table conditionCount records) :
    CanonicalBindings table.sorted.names.length conditionCount
      (BindingRecord.renumberAll table.sorted records) := by
  have renumberedPairs : ((records.map (BindingRecord.renumber table.sorted)).map
      fun binding => (binding.permissions, binding.conditions)).Nodup := by
    rw [List.map_map]
    exact List.Nodup.map_on
      (fun a aMember b bMember same => renumber_pair_injective distinct compacted aMember bMember same)
      (compacted.distinctPairs.of_map _)
  have shuffled := List.mergeSort_perm (records.map (BindingRecord.renumber table.sorted))
    fun a b => a.compare b != .gt
  refine ⟨?_, ?_, ?_, ?_⟩
  · intro binding member
    obtain ⟨record, recordMember, rfl⟩ := mem_renumberAll.mp member
    exact renumber_canonical distinct compacted recordMember
  · unfold BindingRecord.renumberAll BindingRecord.sortAll
    apply Order.mergeSort_keys_sortedLT BindingRecord.compare_ne_gt_iff
    -- a key determines the permissions and conditions, which are already distinct
    refine List.Nodup.of_map (fun key => ((ofLex key).1, (ofLex (ofLex key).2).1)) ?_
    rw [List.map_map]
    exact renumberedPairs
  · exact (shuffled.map _).nodup_iff.mpr renumberedPairs
  · intro a aMember b bMember sameConditions principal inA inB
    obtain ⟨recordA, recordAMember, rfl⟩ := mem_renumberAll.mp aMember
    obtain ⟨recordB, recordBMember, rfl⟩ := mem_renumberAll.mp bMember
    rw [compacted.principalOnce recordA recordAMember recordB recordBMember sameConditions principal
      (mem_renumber_principals.mp inA) (mem_renumber_principals.mp inB)]

end Canonical

/-! ### Canonical bindings are determined by what they grant -/

theorem BindingRecord.key_injective : Function.Injective BindingRecord.key := by
  intro a b same
  unfold BindingRecord.key at same
  simp only [toLex_inj, Prod.mk.injEq] at same
  obtain ⟨samePermissions, sameConditions, samePrincipals⟩ := same
  cases a
  cases b
  simp only at samePermissions sameConditions samePrincipals
  rw [samePermissions, sameConditions, samePrincipals]

section Determined

variable {n m n' m' : Nat} {bindings bindings' : List BindingRecord}

/-- In canonical bindings, a binding that lists a principal has exactly the permissions the
principal holds under the binding's conditions. -/
theorem CanonicalBindings.mem_permissions_iff (canonical : CanonicalBindings n m bindings)
    {binding : BindingRecord} (member : binding ∈ bindings) {principal : String}
    (listed : principal ∈ binding.principals) {permission : Nat} :
    permission ∈ binding.permissions ↔
      BindingRecord.Holds bindings principal permission binding.conditions := by
  constructor
  · intro held
    exact ⟨binding, member, listed, held, rfl⟩
  · rintro ⟨other, otherMember, otherListed, held, sameConditions⟩
    rwa [canonical.principalOnce binding member other otherMember sameConditions.symm principal
      listed otherListed]

variable (canonical : CanonicalBindings n m bindings)
  (canonical' : CanonicalBindings n' m' bindings')
  (holds : ∀ principal permission conditions,
    BindingRecord.Holds bindings principal permission conditions ↔
      BindingRecord.Holds bindings' principal permission conditions)
include canonical canonical' holds

/-- Two bindings that list one principal under the same conditions have the same permissions,
when the two lists hold the same. -/
theorem CanonicalBindings.permissions_eq {binding binding' : BindingRecord}
    (member : binding ∈ bindings) (member' : binding' ∈ bindings')
    (sameConditions : binding.conditions = binding'.conditions) {principal : String}
    (listed : principal ∈ binding.principals) (listed' : principal ∈ binding'.principals) :
    binding.permissions = binding'.permissions := by
  apply List.SortedLT.eq_of_mem_iff (canonical.each binding member).permissions
    (canonical'.each binding' member').permissions
  intro permission
  rw [canonical.mem_permissions_iff member listed, canonical'.mem_permissions_iff member' listed',
    holds, sameConditions]

variable (appears : ∀ principal conditions,
    BindingRecord.Appears bindings principal conditions ↔
      BindingRecord.Appears bindings' principal conditions)
include appears

theorem CanonicalBindings.mem_of_holds_appears {binding : BindingRecord}
    (member : binding ∈ bindings) : binding ∈ bindings' := by
  obtain ⟨principal, listed⟩ := List.exists_mem_of_ne_nil _ (canonical.each binding member).hasPrincipal
  obtain ⟨binding', member', listed', sameConditions⟩ :=
    (appears principal binding.conditions).mp ⟨binding, member, listed, rfl⟩
  have samePermissions := canonical.permissions_eq canonical' holds member member'
    sameConditions.symm listed listed'
  -- a principal of either binding is listed by a binding of the other list with the same
  -- permissions and conditions, and there is only one such binding
  have samePrincipals : ∀ other, other ∈ binding.principals ↔ other ∈ binding'.principals := by
    intro other
    constructor
    · intro otherListed
      obtain ⟨binding'', member'', otherListed'', conditions''⟩ :=
        (appears other binding.conditions).mp ⟨binding, member, otherListed, rfl⟩
      have permissions'' := canonical.permissions_eq canonical' holds member member''
        conditions''.symm otherListed otherListed''
      have same : binding'' = binding' := List.inj_on_of_nodup_map canonical'.distinctPairs
        member'' member' (Prod.ext (permissions''.symm.trans samePermissions)
          (conditions''.trans sameConditions.symm))
      rwa [← same]
    · intro otherListed'
      obtain ⟨binding'', member'', otherListed'', conditions''⟩ :=
        (appears other binding'.conditions).mpr ⟨binding', member', otherListed', rfl⟩
      have permissions'' := canonical.permissions_eq canonical' holds member'' member'
        conditions'' otherListed'' otherListed'
      have same : binding'' = binding := List.inj_on_of_nodup_map canonical.distinctPairs
        member'' member (Prod.ext (permissions''.trans samePermissions.symm)
          (conditions''.trans sameConditions))
      rwa [← same]
  have principals := List.SortedLT.eq_of_mem_iff (canonical.each binding member).principals
    (canonical'.each binding' member').principals samePrincipals
  have same : binding = binding' := by
    obtain ⟨permissions, bindingPrincipals, conditions⟩ := binding
    obtain ⟨permissions', bindingPrincipals', conditions'⟩ := binding'
    simp only at samePermissions principals sameConditions
    rw [samePermissions, principals, sameConditions]
  rw [same]
  exact member'

/-- Canonical bindings are determined by who holds which permission under which conditions and
who is listed under which conditions. -/
theorem CanonicalBindings.eq_of_holds_appears : bindings = bindings' := by
  have backward : ∀ binding ∈ bindings', binding ∈ bindings := fun _ member =>
    canonical'.mem_of_holds_appears canonical (fun q i c => (holds q i c).symm)
      (fun q c => (appears q c).symm) member
  apply (List.map_injective_iff.mpr BindingRecord.key_injective)
  apply List.SortedLT.eq_of_mem_iff canonical.sorted canonical'.sorted
  intro key
  simp only [List.mem_map]
  constructor
  · rintro ⟨binding, member, rfl⟩
    exact ⟨binding, canonical.mem_of_holds_appears canonical' holds appears member, rfl⟩
  · rintro ⟨binding, member, rfl⟩
    exact ⟨binding, backward binding member, rfl⟩

end Determined

end RealmAccess
