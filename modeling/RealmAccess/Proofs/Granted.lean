import Mathlib.Data.Set.Defs
import RealmAccess.Proofs.Output
/-!
# What an expanded realm grants

`Expansion.grants` reads an expanded realm back as a set of grants: a principal, a permission by
name, and the set of conditions under which the principal holds it. For a successful expansion
this set is exactly what the bindings of the realms reachable from the realm give: each
principal of such a binding holds each permission of the binding's role, under the normal
forms of the binding's conditions (`Config.Outcome.mem_grants`).
-/

namespace RealmAccess

/-- What an expanded realm grants: each principal with each permission it holds, by name, and
the set of conditions under which it holds it. -/
def Expansion.grants (out : Expansion) (record : RealmRecord) :
    Set (String × String × Set Restriction) :=
  { grant | ∃ binding ∈ record.bindings, grant.1 ∈ binding.principals ∧
      (∃ i ∈ binding.permissions, out.permissions[i]? = some grant.2.1) ∧
      grant.2.2 = { condition | ∃ j ∈ binding.conditions, out.conditions[j]? = some condition } }

/-- The normal forms of the restrictions a binding's conditions make. -/
def Binding.normalConditions (binding : Binding) : Set Restriction :=
  { normal | ∃ condition ∈ binding.conditions, ∃ restriction,
      condition.restrict = some restriction ∧ normal = restriction.normalize }

/-- A grant read back from an expanded realm is a numbered permission of one of its bindings,
held by one of the binding's principals under the binding's conditions. -/
theorem Expansion.mem_grants_iff_holds {out : Expansion} {record : RealmRecord} {principal : String}
    {permission : String} {conditions : Set Restriction} :
    (principal, permission, conditions) ∈ out.grants record ↔
      ∃ i numbers, BindingRecord.Holds record.bindings principal i numbers ∧
        out.permissions[i]? = some permission ∧
        conditions = { condition | ∃ j ∈ numbers, out.conditions[j]? = some condition } := by
  constructor
  · rintro ⟨binding, member, named, ⟨i, listed, found⟩, rfl⟩
    exact ⟨i, binding.conditions, ⟨binding, member, named, listed, rfl⟩, found, rfl⟩
  · rintro ⟨i, numbers, ⟨binding, member, named, listed, rfl⟩, found, rfl⟩
    exact ⟨binding, member, named, ⟨i, listed, found⟩, rfl⟩

/-- Who an expanded realm lists, and the set of conditions under which: each principal of each
of its bindings, whether the binding gives permissions or not. -/
def Expansion.members (out : Expansion) (record : RealmRecord) : Set (String × Set Restriction) :=
  { member | ∃ binding ∈ record.bindings, member.1 ∈ binding.principals ∧
      member.2 = { condition | ∃ j ∈ binding.conditions, out.conditions[j]? = some condition } }

theorem Expansion.mem_members_iff_appears {out : Expansion} {record : RealmRecord}
    {principal : String} {conditions : Set Restriction} :
    (principal, conditions) ∈ out.members record ↔
      ∃ numbers, BindingRecord.Appears record.bindings principal numbers ∧
        conditions = { condition | ∃ j ∈ numbers, out.conditions[j]? = some condition } := by
  constructor
  · rintro ⟨binding, member, named, rfl⟩
    exact ⟨binding.conditions, ⟨binding, member, named, rfl⟩, rfl⟩
  · rintro ⟨numbers, ⟨binding, member, named, rfl⟩, rfl⟩
    exact ⟨binding, member, named, rfl⟩

/-! ### Canonical bindings are determined by the two views -/

theorem index_eq_of_nodup {α : Type} {items : List α} (distinct : items.Nodup) {i j : Nat} {x : α}
    (atI : items[i]? = some x) (atJ : items[j]? = some x) : i = j := by
  obtain ⟨iBound, iEq⟩ := List.getElem?_eq_some_iff.mp atI
  obtain ⟨jBound, jEq⟩ := List.getElem?_eq_some_iff.mp atJ
  exact (List.Nodup.getElem_inj_iff distinct).mp (iEq.trans jEq.symm)

/-- Strictly increasing numbers of distinct conditions are determined by the conditions they
stand for. -/
theorem Expansion.numbers_eq_of_conditions_eq {out : Expansion} (distinct : out.conditions.Nodup)
    {numbers numbers' : List Nat} (sorted : numbers.SortedLT) (sorted' : numbers'.SortedLT)
    (inRange : ∀ j ∈ numbers, j < out.conditions.length)
    (inRange' : ∀ j ∈ numbers', j < out.conditions.length)
    (same : { condition | ∃ j ∈ numbers, out.conditions[j]? = some condition } =
      { condition | ∃ j ∈ numbers', out.conditions[j]? = some condition }) :
    numbers = numbers' := by
  have oneWay : ∀ {numbers numbers' : List Nat}, (∀ j ∈ numbers, j < out.conditions.length) →
      { condition | ∃ j ∈ numbers, out.conditions[j]? = some condition } =
        { condition | ∃ j ∈ numbers', out.conditions[j]? = some condition } →
      ∀ j ∈ numbers, j ∈ numbers' := by
    intro numbers numbers' inRange same j member
    have bound := inRange j member
    have listed : out.conditions[j] ∈
        { condition | ∃ j ∈ numbers, out.conditions[j]? = some condition } :=
      ⟨j, member, List.getElem?_eq_getElem bound⟩
    rw [same] at listed
    obtain ⟨j', member', found⟩ := listed
    rwa [index_eq_of_nodup distinct found (List.getElem?_eq_getElem bound)] at member'
  exact List.SortedLT.eq_of_mem_iff sorted sorted'
    fun j => ⟨oneWay inRange same j, oneWay inRange' same.symm j⟩

section Views

variable {out : Expansion} {record record' : RealmRecord}

theorem Expansion.holds_of_grants_subset (distinctPermissions : out.permissions.Nodup)
    (distinctConditions : out.conditions.Nodup)
    (canonical : CanonicalBindings out.permissions.length out.conditions.length record.bindings)
    (canonical' : CanonicalBindings out.permissions.length out.conditions.length record'.bindings)
    (sub : out.grants record ⊆ out.grants record') {principal : String} {i : Nat}
    {numbers : List Nat} (held : BindingRecord.Holds record.bindings principal i numbers) :
    BindingRecord.Holds record'.bindings principal i numbers := by
  obtain ⟨binding, member, named, listed, rfl⟩ := held
  have shape := canonical.each binding member
  have bound := shape.permissionsInRange i listed
  obtain ⟨i', numbers', held', found', sameConditions⟩ := Expansion.mem_grants_iff_holds.mp
    (sub (Expansion.mem_grants_iff_holds.mpr ⟨i, binding.conditions,
      ⟨binding, member, named, listed, rfl⟩, List.getElem?_eq_getElem bound, rfl⟩))
  obtain ⟨binding', member', named', listed', rfl⟩ := held'
  have shape' := canonical'.each binding' member'
  -- the permission and the conditions name one position and one list of numbers
  have sameIndex : i' = i :=
    index_eq_of_nodup distinctPermissions found' (List.getElem?_eq_getElem bound)
  have sameNumbers : binding'.conditions = binding.conditions :=
    Expansion.numbers_eq_of_conditions_eq distinctConditions shape'.conditions shape.conditions
      shape'.conditionsInRange shape.conditionsInRange sameConditions.symm
  rw [sameIndex] at listed'
  exact ⟨binding', member', named', listed', sameNumbers⟩

theorem Expansion.appears_of_members_subset (distinctConditions : out.conditions.Nodup)
    (canonical : CanonicalBindings out.permissions.length out.conditions.length record.bindings)
    (canonical' : CanonicalBindings out.permissions.length out.conditions.length record'.bindings)
    (sub : out.members record ⊆ out.members record') {principal : String} {numbers : List Nat}
    (appears : BindingRecord.Appears record.bindings principal numbers) :
    BindingRecord.Appears record'.bindings principal numbers := by
  obtain ⟨binding, member, named, rfl⟩ := appears
  have shape := canonical.each binding member
  obtain ⟨numbers', ⟨binding', member', named', rfl⟩, sameConditions⟩ :=
    Expansion.mem_members_iff_appears.mp
      (sub (Expansion.mem_members_iff_appears.mpr ⟨binding.conditions, ⟨binding, member, named, rfl⟩, rfl⟩))
  have shape' := canonical'.each binding' member'
  exact ⟨binding', member', named', Expansion.numbers_eq_of_conditions_eq distinctConditions
    shape'.conditions shape.conditions shape'.conditionsInRange shape.conditionsInRange
    sameConditions.symm⟩

/-- Two canonical realms over the same distinct permissions and conditions that grant the same
and list the same have the same bindings. -/
theorem Expansion.bindings_eq_of_views (distinctPermissions : out.permissions.Nodup)
    (distinctConditions : out.conditions.Nodup)
    (canonical : CanonicalBindings out.permissions.length out.conditions.length record.bindings)
    (canonical' : CanonicalBindings out.permissions.length out.conditions.length record'.bindings)
    (sameGrants : out.grants record = out.grants record')
    (sameMembers : out.members record = out.members record') :
    record.bindings = record'.bindings :=
  CanonicalBindings.eq_of_holds_appears canonical canonical'
    (fun _ _ _ => ⟨Expansion.holds_of_grants_subset distinctPermissions distinctConditions
        canonical canonical' sameGrants.subset,
      Expansion.holds_of_grants_subset distinctPermissions distinctConditions
        canonical' canonical sameGrants.symm.subset⟩)
    (fun _ _ => ⟨Expansion.appears_of_members_subset distinctConditions canonical canonical'
        sameMembers.subset,
      Expansion.appears_of_members_subset distinctConditions canonical' canonical
        sameMembers.symm.subset⟩)

end Views

namespace Config

variable {config : Config} {registry : Registry} {project : String} {table : ConditionTable}
  {entries : List (String × List BindingRecord × Option (List String))} {memo : WalkMemo}

/-- The conditions a walked grant numbers are the normal forms of its binding's conditions, in
a working realm list that fits 32 bits. -/
theorem Outcome.conditions_of_indexes (outcome : config.Outcome registry project table entries memo)
    (fits : (config.workingGraph registry project).Fits32)
    {r b : Nat} {realm : Realm} {binding : Binding} {numbers : List Nat}
    (realmFound : (config.workingGraph registry project).realms[r]? = some realm)
    (bindingFound : realm.bindings[b]? = some binding)
    (indexed : table.finalize.1.indexes (Walker.bindingSlots r b binding) = .ok numbers) :
    { condition | ∃ j ∈ numbers, table.finalize.2[j]? = some condition } =
      binding.normalConditions := by
  obtain ⟨-, numbered⟩ := ConditionIndex.indexes_spec indexed
  have located : ∀ {p} (inRange : p < binding.conditions.length),
      (config.workingGraph registry project).conditionAt r b p = some binding.conditions[p] :=
    fun inRange => by
      rw [RealmGraph.conditionAt_eq realmFound bindingFound, List.getElem?_eq_getElem inRange]
  ext normal
  constructor
  · rintro ⟨j, jMember, found⟩
    obtain ⟨slot, slotMember, index, indexOk, rfl⟩ := (numbered j).mp jMember
    obtain ⟨p, inRange, rfl⟩ := List.mem_map.mp slotMember
    have bound := List.mem_range.mp inRange
    obtain ⟨restriction, restricted, atIndex⟩ :=
      outcome.getElem?_index fits (located bound) indexOk
    rw [found] at atIndex
    cases atIndex
    exact ⟨_, List.getElem_mem bound, restriction, restricted, rfl⟩
  · rintro ⟨condition, conditionMember, restriction, restricted, rfl⟩
    obtain ⟨p, inRange, rfl⟩ := List.getElem_of_mem conditionMember
    obtain ⟨index, indexOk, atIndex⟩ := outcome.exists_index fits (located inRange) restricted
    have slotMember : Slot.ofIndices r b p ∈ Walker.bindingSlots r b binding :=
      List.mem_map.mpr ⟨p, List.mem_range.mpr inRange, rfl⟩
    exact ⟨index.toNat, (numbered _).mpr ⟨_, slotMember, index, indexOk, rfl⟩, atIndex⟩

/-- The grants of a walked realm are those of the bindings of the realms reachable from it:
each principal of such a binding holds each permission of the binding's role under the normal
forms of the binding's conditions. -/
theorem Outcome.mem_grants (outcome : config.Outcome registry project table entries memo)
    (fits : (config.workingGraph registry project).Fits32) {realm : Realm}
    {entry : String × List BindingRecord × Option (List String)}
    (expands : (config.walkerOf registry project table.finalize.1).Expands memo.roles.table
      realm entry)
    {r : Nat} (positioned : (config.workingGraph registry project).position realm.name = .ok r)
    {realms : List RealmRecord} {principal permission : String} {conditions : Set Restriction} :
    (principal, permission, conditions) ∈
        Expansion.grants ⟨memo.roles.table.sorted.names, table.finalize.2, realms⟩
          (RealmRecord.ofEntry project memo.roles.table.sorted entry) ↔
      ∃ r', Relation.ReflTransGen (config.workingGraph registry project).Step r r' ∧
        ∃ realm', (config.workingGraph registry project).realms[r']? = some realm' ∧
          ∃ binding ∈ realm'.bindings, principal ∈ binding.principals ∧
            RoleSource.Grants ⟨registry, config.customRoles⟩ binding.role permission ∧
            conditions = binding.normalConditions := by
  obtain ⟨walkedFrom, grants, walkedAt, compacted, given, covered⟩ := expands.walked
  have same : walkedFrom = r := Except.ok.inj (walkedAt.symm.trans positioned)
  subst same
  rw [Expansion.mem_grants_iff_holds]
  constructor
  · rintro ⟨i, numbers, held, found, rfl⟩
    obtain ⟨old, heldBefore, rfl⟩ := holds_renumberAll.mp held
    rw [compacted] at heldBefore
    obtain ⟨grant, grantMember, rfl, listed, rfl⟩ := holds_compact.mp heldBefore
    obtain ⟨r', reach, realm', realmFound, b, binding, bindingFound, grantOf⟩ :=
      given grant grantMember
    rw [NameTable.getElem?_remap (grantOf.permissions.inRange old listed)] at found
    exact ⟨r', reach, realm', realmFound, binding, List.mem_of_getElem? bindingFound,
      grantOf.principal, (grantOf.permissions.exact permission).mp ⟨old, listed, found⟩,
      outcome.conditions_of_indexes fits realmFound bindingFound grantOf.conditions⟩
  · rintro ⟨r', reach, realm', realmFound, binding, bindingMember, named, granted, rfl⟩
    obtain ⟨b, inRange, rfl⟩ := List.getElem_of_mem bindingMember
    have bindingFound := List.getElem?_eq_getElem inRange
    obtain ⟨grant, grantMember, rfl, grantOf⟩ :=
      covered r' reach realm' realmFound b _ bindingFound principal named
    obtain ⟨old, listed, found⟩ := (grantOf.permissions.exact permission).mpr granted
    refine ⟨memo.roles.table.sorted.remap old, grant.conditions,
      holds_renumberAll.mpr ⟨old, ?_, rfl⟩, ?_,
      (outcome.conditions_of_indexes fits realmFound bindingFound grantOf.conditions).symm⟩
    · rw [compacted]
      exact holds_compact.mpr ⟨grant, grantMember, rfl, listed, rfl⟩
    · rw [NameTable.getElem?_remap (grantOf.permissions.inRange old listed)]
      exact found

/-- The members of a walked realm are the principals of the bindings of the realms reachable
from it, each under the normal forms of its binding's conditions. -/
theorem Outcome.mem_members (outcome : config.Outcome registry project table entries memo)
    (fits : (config.workingGraph registry project).Fits32) {realm : Realm}
    {entry : String × List BindingRecord × Option (List String)}
    (expands : (config.walkerOf registry project table.finalize.1).Expands memo.roles.table
      realm entry)
    {r : Nat} (positioned : (config.workingGraph registry project).position realm.name = .ok r)
    {realms : List RealmRecord} {principal : String} {conditions : Set Restriction} :
    (principal, conditions) ∈
        Expansion.members ⟨memo.roles.table.sorted.names, table.finalize.2, realms⟩
          (RealmRecord.ofEntry project memo.roles.table.sorted entry) ↔
      ∃ r', Relation.ReflTransGen (config.workingGraph registry project).Step r r' ∧
        ∃ realm', (config.workingGraph registry project).realms[r']? = some realm' ∧
          ∃ binding ∈ realm'.bindings, principal ∈ binding.principals ∧
            conditions = binding.normalConditions := by
  obtain ⟨walkedFrom, grants, walkedAt, compacted, given, covered⟩ := expands.walked
  have same : walkedFrom = r := Except.ok.inj (walkedAt.symm.trans positioned)
  subst same
  rw [Expansion.mem_members_iff_appears]
  constructor
  · rintro ⟨numbers, appears, rfl⟩
    have appearsBefore := appears_renumberAll.mp appears
    rw [compacted] at appearsBefore
    obtain ⟨grant, grantMember, rfl, rfl⟩ := appears_compact.mp appearsBefore
    obtain ⟨r', reach, realm', realmFound, b, binding, bindingFound, grantOf⟩ :=
      given grant grantMember
    exact ⟨r', reach, realm', realmFound, binding, List.mem_of_getElem? bindingFound,
      grantOf.principal, outcome.conditions_of_indexes fits realmFound bindingFound grantOf.conditions⟩
  · rintro ⟨r', reach, realm', realmFound, binding, bindingMember, named, rfl⟩
    obtain ⟨b, inRange, rfl⟩ := List.getElem_of_mem bindingMember
    have bindingFound := List.getElem?_eq_getElem inRange
    obtain ⟨grant, grantMember, rfl, grantOf⟩ :=
      covered r' reach realm' realmFound b _ bindingFound principal named
    refine ⟨grant.conditions, appears_renumberAll.mpr ?_,
      (outcome.conditions_of_indexes fits realmFound bindingFound grantOf.conditions).symm⟩
    rw [compacted]
    exact appears_compact.mpr ⟨grant, grantMember, rfl, rfl⟩

end Config

end RealmAccess
