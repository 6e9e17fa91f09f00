import RealmAccess.Proofs.Ancestry
import RealmAccess.Proofs.Output
import RealmAccess.Proofs.ValidExpansion
/-!
# The permission and condition tables of an expansion

The permissions of an expansion are the permissions of the roles of all bindings of the working
realms, and its conditions the normal forms of all conditions of those bindings. Every binding
counts, with principals or without: the walk from a realm resolves the role of every binding of
the realm, and the walks number nothing else.
-/

namespace RealmAccess

namespace Config

variable {config : Config} {registry : Registry} {project : String} {table : ConditionTable}
  {entries : List (String × List BindingRecord × Option (List String))} {memo : WalkMemo}

/-- A working realm stands at the position of its name. -/
theorem workingGraph_realm_at {realm : Realm}
    (working : realm ∈ (config.workingGraph registry project).realms) :
    ∃ r, (config.workingGraph registry project).position realm.name = .ok r ∧
      (config.workingGraph registry project).realms[r]? = some realm := by
  have distinct : (config.workingGraph registry project).names.Nodup := workingGraph_names_nodup
  obtain ⟨r, positioned⟩ := RealmGraph.position_ok_of_mem (List.mem_map_of_mem working)
  obtain ⟨realm', found, named⟩ :=
    RealmGraph.exists_realm_of_names ((RealmGraph.position_eq_ok_iff distinct).mp positioned)
  have same : realm' = realm :=
    List.inj_on_of_nodup_map distinct (List.mem_of_getElem? found) working named
  rw [same] at found
  exact ⟨r, positioned, found⟩

/-- The role memo numbers exactly the permissions of the roles of the working bindings. -/
theorem Outcome.mem_permissions (outcome : config.Outcome registry project table entries memo)
    {permission : String} :
    permission ∈ memo.roles.table.names ↔
      ∃ realm ∈ (config.workingGraph registry project).realms, ∃ binding ∈ realm.bindings,
        RoleSource.Grants ⟨registry, config.customRoles⟩ binding.role permission := by
  constructor
  · exact outcome.numbered permission
  · rintro ⟨realm, working, binding, member, granted⟩
    obtain ⟨entry, -, expands⟩ := exists_of_forall₂_left outcome.expands working
    obtain ⟨r, positioned, found⟩ := workingGraph_realm_at working
    exact expands.numbered r positioned realm found binding member permission granted

/-- Every finalized condition is the normal form of a working condition's restriction: it was
registered under the slot of that condition. -/
theorem Outcome.exists_condition_of_mem
    (outcome : config.Outcome registry project table entries memo) {normal : Restriction}
    (member : normal ∈ table.finalize.2) :
    ∃ realm ∈ (config.workingGraph registry project).realms, ∃ binding ∈ realm.bindings,
      ∃ condition ∈ binding.conditions, ∃ restriction,
        condition.restrict = some restriction ∧ normal = restriction.normalize := by
  rw [outcome.described, ConditionTable.mem_finalize_tableOf] at member
  obtain ⟨entry, entryMember, rfl⟩ := member
  obtain ⟨r, b, p, -, located⟩ :=
    RealmGraph.mem_slots.mp (ConditionTable.mem_of_mem_registered entryMember)
  obtain ⟨realm, realmFound, binding, bindingFound, conditionFound⟩ :=
    RealmGraph.conditionAt_eq_some_iff.mp located
  exact ⟨realm, List.mem_of_getElem? realmFound, binding, List.mem_of_getElem? bindingFound, _,
    List.mem_of_getElem? conditionFound, entry.2, rfl, rfl⟩

/-- In a working realm list that fits 32 bits, the finalized conditions are exactly the normal
forms of the working conditions: each condition is registered under a slot of its own. -/
theorem Outcome.mem_conditions (outcome : config.Outcome registry project table entries memo)
    (fits : (config.workingGraph registry project).Fits32) {normal : Restriction} :
    normal ∈ table.finalize.2 ↔
      ∃ realm ∈ (config.workingGraph registry project).realms, ∃ binding ∈ realm.bindings,
        ∃ condition ∈ binding.conditions, ∃ restriction,
          condition.restrict = some restriction ∧ normal = restriction.normalize := by
  refine ⟨outcome.exists_condition_of_mem, ?_⟩
  rintro ⟨realm, working, binding, member, condition, listed, restriction, restricted, rfl⟩
  obtain ⟨r, b, p, located⟩ := RealmGraph.exists_conditionAt working member listed
  have looked := (fits.lookup_registered located).trans restricted
  rw [outcome.described, ConditionTable.mem_finalize_tableOf]
  exact ⟨_, mem_of_lookup_eq_some looked, rfl⟩

variable {out : Expansion}

/-- The permissions of an expansion are the permissions of the roles of the working bindings. -/
theorem expansion_mem_permissions (expanded : config.expandUnchecked registry project = .ok out)
    {permission : String} :
    permission ∈ out.permissions ↔
      ∃ realm ∈ (config.workingGraph registry project).realms, ∃ binding ∈ realm.bindings,
        RoleSource.Grants ⟨registry, config.customRoles⟩ binding.role permission := by
  obtain ⟨table, entries, memo, outcome, rfl⟩ := expandUnchecked_outcome expanded
  exact NameTable.mem_sorted_names.trans outcome.mem_permissions

/-- The conditions of an expansion are normal forms of working conditions. -/
theorem expansion_condition_used (expanded : config.expandUnchecked registry project = .ok out)
    {normal : Restriction} (member : normal ∈ out.conditions) :
    ∃ realm ∈ (config.workingGraph registry project).realms, ∃ binding ∈ realm.bindings,
      ∃ condition ∈ binding.conditions, ∃ restriction,
        condition.restrict = some restriction ∧ normal = restriction.normalize := by
  obtain ⟨table, entries, memo, outcome, rfl⟩ := expandUnchecked_outcome expanded
  exact outcome.exists_condition_of_mem member

/-- The conditions of an expansion are the normal forms of the working conditions, in a working
realm list that fits 32 bits. -/
theorem expansion_mem_conditions (expanded : config.expandUnchecked registry project = .ok out)
    (fits : (config.workingGraph registry project).Fits32) {normal : Restriction} :
    normal ∈ out.conditions ↔
      ∃ realm ∈ (config.workingGraph registry project).realms, ∃ binding ∈ realm.bindings,
        ∃ condition ∈ binding.conditions, ∃ restriction,
          condition.restrict = some restriction ∧ normal = restriction.normalize := by
  obtain ⟨table, entries, memo, outcome, rfl⟩ := expandUnchecked_outcome expanded
  exact outcome.mem_conditions fits

end Config

theorem expansion_tables_are_the_used_entries {config : Config} {registry : Registry}
    {project : String} {out : Expansion} (expanded : config.expand registry project = .ok out) :
    out.permissions.SortedLT ∧
      (∀ permission, permission ∈ out.permissions ↔
        ∃ realm ∈ (config.workingGraph registry project).realms, ∃ binding ∈ realm.bindings,
          RoleSource.Grants ⟨registry, config.customRoles⟩ binding.role permission) ∧
      (out.conditions.map Restriction.key).SortedLT ∧
      (∀ realm ∈ (config.workingGraph registry project).realms, ∀ binding ∈ realm.bindings,
        ∀ condition ∈ binding.conditions, condition.restrict.isSome) ∧
      (∀ normal ∈ out.conditions,
        ∃ realm ∈ (config.workingGraph registry project).realms, ∃ binding ∈ realm.bindings,
          ∃ condition ∈ binding.conditions, ∃ restriction,
            condition.restrict = some restriction ∧ normal = restriction.normalize) ∧
      ((config.workingGraph registry project).Fits32 → ∀ normal,
        (∃ realm ∈ (config.workingGraph registry project).realms, ∃ binding ∈ realm.bindings,
          ∃ condition ∈ binding.conditions, ∃ restriction,
            condition.restrict = some restriction ∧ normal = restriction.normalize) →
        normal ∈ out.conditions) := by
  obtain ⟨valid, unchecked⟩ := Config.expand_eq_ok_iff.mp expanded
  exact ⟨Config.expansion_permissions_sortedLT unchecked,
    fun _ => Config.expansion_mem_permissions unchecked,
    (Config.expansion_conditions_sortedLT unchecked).1,
    (Config.checked_of_validate valid).working_restricted,
    fun _ => Config.expansion_condition_used unchecked,
    fun fits _ => (Config.expansion_mem_conditions unchecked fits).mpr⟩

theorem sampleConfig_tables_are_the_used_entries :
    ∃ out, sampleConfig.expand sampleRegistry "demo" = .ok out ∧
      out.permissions.SortedLT ∧
      (∀ permission, permission ∈ out.permissions ↔
        ∃ realm ∈ (sampleConfig.workingGraph sampleRegistry "demo").realms,
          ∃ binding ∈ realm.bindings,
            RoleSource.Grants ⟨sampleRegistry, sampleConfig.customRoles⟩ binding.role permission) ∧
      (out.conditions.map Restriction.key).SortedLT ∧
      (∀ realm ∈ (sampleConfig.workingGraph sampleRegistry "demo").realms,
        ∀ binding ∈ realm.bindings, ∀ condition ∈ binding.conditions,
          condition.restrict.isSome) ∧
      (∀ normal ∈ out.conditions,
        ∃ realm ∈ (sampleConfig.workingGraph sampleRegistry "demo").realms,
          ∃ binding ∈ realm.bindings, ∃ condition ∈ binding.conditions, ∃ restriction,
            condition.restrict = some restriction ∧ normal = restriction.normalize) ∧
      ((sampleConfig.workingGraph sampleRegistry "demo").Fits32 → ∀ normal,
        (∃ realm ∈ (sampleConfig.workingGraph sampleRegistry "demo").realms,
          ∃ binding ∈ realm.bindings, ∃ condition ∈ binding.conditions, ∃ restriction,
            condition.restrict = some restriction ∧ normal = restriction.normalize) →
        normal ∈ out.conditions) := by
  obtain ⟨out, expanded⟩ := (Config.checked_of_validate sampleConfig_valid).expandUnchecked_ok
    sampleConfig_implicitRolesKnown
  rw [← Config.expand_eq_of_valid sampleConfig_valid] at expanded
  exact ⟨out, expanded, expansion_tables_are_the_used_entries expanded⟩

/-! ### Past `2 ^ 32` conditions in a binding

The root realm alone, binding `role/viewer` to `user:x` under `2 ^ 32` conditions on `a` and then
one on `b` (`aliasingConditions`). The slot of the last condition is cut to the slot of the first,
which registers the condition on `a`, so the expansion has no condition on `b`. -/

/-- The registry of `role/viewer` alone, with no implicit root roles. -/
def viewerRegistry : Registry :=
  { roles := [{ name := "role/viewer", permissions := ["read"] }]
    permissions := [{ name := "read" }] }

/-- The root realm alone, binding `role/viewer` to `user:x` under `conditions`. -/
def rootBindingConfig (conditions : List Condition) : Config :=
  { realms := [{ name := rootRealm, bindings :=
      [{ role := "role/viewer", principals := ["user:x"], conditions := conditions }] }] }

/-- The condition that `attribute` is `v`. -/
def attributeIs (name : String) : Condition :=
  ⟨some { attributeName := name, values := ["v"] }⟩

/-- `2 ^ 32` conditions on `a`, then one on `b`. -/
def aliasingConditions : List Condition :=
  List.replicate (2 ^ 32) (attributeIs "a") ++ [attributeIs "b"]

@[simp] theorem Restriction.normalize_single_value (name value : String) :
    ({ attributeName := name, values := [value] } : Restriction).normalize =
      { attributeName := name, values := [value] } := by
  simp [Restriction.normalize, Order.sortStrings, Order.sortDistinct, Order.dropRepeats]

namespace RootBinding

variable {conditions : List Condition}

theorem workingGraph_realms :
    ((rootBindingConfig conditions).workingGraph viewerRegistry "demo").realms =
      [{ name := rootRealm, bindings :=
        [{ role := "role/viewer", principals := ["user:x"], conditions := conditions }] }] := by
  simp [Config.workingGraph, RealmGraph.build_realms, RealmGraph.declaredWithRoot, lastOfEachName,
    rootBindingConfig, RealmGraph.withImplicit, Registry.implicitFor, Registry.implicitBindings,
    viewerRegistry]

/-- A condition of the binding on `name` is a working condition of the configuration. -/
theorem attributeIs_working {name : String} (member : attributeIs name ∈ conditions) :
    ∃ realm ∈ ((rootBindingConfig conditions).workingGraph viewerRegistry "demo").realms,
      ∃ binding ∈ realm.bindings, ∃ condition ∈ binding.conditions, ∃ restriction,
        condition.restrict = some restriction ∧
          (⟨name, ["v"]⟩ : Restriction) = restriction.normalize := by
  rw [workingGraph_realms]
  exact ⟨_, List.mem_singleton_self _, _, List.mem_singleton_self _, _, member, _, rfl,
    (Restriction.normalize_single_value _ _).symm⟩

theorem validate (named : ∀ condition ∈ conditions,
      ∃ name, name ≠ "" ∧ condition = attributeIs name) :
    (rootBindingConfig conditions).validate viewerRegistry ("demo" = internalProject) = .ok () := by
  -- no realm and no custom role has a parent, so neither graph has a cycle
  have noCycle : ∀ graph : Inheritance, (∀ name, graph.parentsOf name = []) →
      ∀ name, ¬ Relation.TransGen graph.ParentOf name name := by
    intro graph orphans name cycle
    cases cycle with
    | single step => simp [Inheritance.ParentOf, orphans] at step
    | tail _ step => simp [Inheritance.ParentOf, orphans] at step
  have viewerUsable : RoleUsable viewerRegistry ("demo" = internalProject) [] "role/viewer" :=
    Or.inr ⟨by decide +kernel, by decide +kernel, _, rfl, fun internal => by cases internal⟩
  have principal : isPrincipal "user:x" = true := by decide +kernel
  apply Config.validate_eq_ok_iff.mpr
  exact {
    customPrefixed := fun _ member => by cases member
    customNames := List.nodup_nil
    customRoles := fun _ member => by cases member
    customAcyclic := noCycle _ fun name => rfl
    realmNames := fun realm member => by
      rw [List.mem_singleton.mp member]
      exact Or.inl rfl
    realmNamesDistinct := List.nodup_singleton _
    realms := fun realm member => by
      rw [List.mem_singleton.mp member]
      refine ⟨fun _ listed => (by cases listed), fun _ listed => (by cases listed), ?_⟩
      intro binding listed
      rw [List.mem_singleton.mp listed]
      refine ⟨viewerUsable, fun _ listed => by rw [List.mem_singleton.mp listed]; exact principal,
        ?_⟩
      intro condition listed
      obtain ⟨name, nonempty, rfl⟩ := named condition listed
      exact ⟨_, rfl, nonempty, rfl, by simp⟩
    realmsAcyclic := noCycle _ fun name => by
      by_cases root : rootRealm = name <;>
        simp [Inheritance.parentsOf, realmInheritance, rootBindingConfig, root] }

theorem implicitRolesKnown :
    (rootBindingConfig conditions).ImplicitRolesKnown viewerRegistry "demo" :=
  fun _ _ implicit => by cases implicit

theorem expands (named : ∀ condition ∈ conditions,
      ∃ name, name ≠ "" ∧ condition = attributeIs name) :
    ∃ out, (rootBindingConfig conditions).expand viewerRegistry "demo" = .ok out := by
  have valid := validate named
  obtain ⟨out, expanded⟩ := (Config.checked_of_validate valid).expandUnchecked_ok implicitRolesKnown
  exact ⟨out, (Config.expand_eq_of_valid valid).trans expanded⟩

theorem conditionAt_eq_some_iff {r b p : Nat} {condition : Condition} :
    ((rootBindingConfig conditions).workingGraph viewerRegistry "demo").conditionAt r b p =
        some condition ↔ r = 0 ∧ b = 0 ∧ conditions[p]? = some condition := by
  rw [RealmGraph.conditionAt_eq_some_iff, workingGraph_realms]
  constructor
  · rintro ⟨realm, realmAt, binding, bindingAt, conditionAt⟩
    rcases r with _ | r
    · cases realmAt
      rcases b with _ | b
      · cases bindingAt
        exact ⟨rfl, rfl, conditionAt⟩
      · cases bindingAt
    · cases realmAt
  · rintro ⟨rfl, rfl, found⟩
    exact ⟨_, rfl, _, rfl, found⟩

theorem slots_cons {first : Condition} {more : List Condition} :
    ∃ rest, ((rootBindingConfig (first :: more)).workingGraph viewerRegistry "demo").slots =
      (Slot.ofIndices 0 0 0, first) :: rest := by
  rw [RealmGraph.slots, workingGraph_realms]
  exact ⟨_, rfl⟩

end RootBinding

theorem aliasingConditions_head : ∃ more, aliasingConditions = attributeIs "a" :: more :=
  ⟨List.replicate (2 ^ 32 - 1) (attributeIs "a") ++ [attributeIs "b"], by
    rw [aliasingConditions, ← List.cons_append, ← List.replicate_succ,
      Nat.sub_add_cancel Nat.one_le_two_pow]⟩

/-- The only condition on `b` stands at position `2 ^ 32`, so its slot is cut to the slot of the
first condition. -/
theorem aliasingConditions_slot {slot : Slot} {restriction : Restriction}
    (member : (slot, ⟨some restriction⟩) ∈
      ((rootBindingConfig aliasingConditions).workingGraph viewerRegistry "demo").slots)
    (onB : restriction.attributeName = "b") : slot = Slot.ofIndices 0 0 0 := by
  obtain ⟨r, b, p, rfl, located⟩ := RealmGraph.mem_slots.mp member
  obtain ⟨rfl, rfl, found⟩ := RootBinding.conditionAt_eq_some_iff.mp located
  have last : p = 2 ^ 32 := by
    by_cases early : p < 2 ^ 32
    · have inRange : p < (List.replicate (2 ^ 32) (attributeIs "a")).length := by
        rw [List.length_replicate]
        exact early
      rw [aliasingConditions, List.getElem?_append_left inRange, List.getElem?_replicate,
        if_pos early] at found
      cases found
      exact absurd onB (by decide)
    · have beyond : (List.replicate (2 ^ 32) (attributeIs "a")).length ≤ p := by
        rw [List.length_replicate]
        omega
      rw [aliasingConditions, List.getElem?_append_right beyond, List.length_replicate,
        List.getElem?_singleton] at found
      by_cases at_last : p - 2 ^ 32 = 0
      · omega
      · rw [if_neg at_last] at found
        cases found
  subst last
  decide

/-- The expansion of the aliasing configuration has no condition on `b`: the condition on `b`
shares the slot of the first condition on `a`, which is registered first. -/
theorem aliasing_misses_b {out : Expansion}
    (expanded : (rootBindingConfig aliasingConditions).expand viewerRegistry "demo" = .ok out) :
    ∀ normal ∈ out.conditions, normal.attributeName ≠ "b" := by
  obtain ⟨-, unchecked⟩ := Config.expand_eq_ok_iff.mp expanded
  obtain ⟨table, entries, memo, outcome, rfl⟩ := Config.expandUnchecked_outcome unchecked
  intro normal member named
  rw [outcome.described, ConditionTable.mem_finalize_tableOf] at member
  obtain ⟨entry, registered, rfl⟩ := member
  rw [Restriction.normalize_attributeName] at named
  have aliased := aliasingConditions_slot (ConditionTable.mem_of_mem_registered registered) named
  obtain ⟨more, head⟩ := aliasingConditions_head
  obtain ⟨rest, slots⟩ := @RootBinding.slots_cons (attributeIs "a") more
  rw [← head] at slots
  have first : (Slot.ofIndices 0 0 0, (⟨"a", ["v"]⟩ : Restriction)) ∈
      ConditionTable.registered
        ((rootBindingConfig aliasingConditions).workingGraph viewerRegistry "demo").slots := by
    rw [slots]
    exact ConditionTable.mem_registered_cons rfl rest
  have same := ConditionTable.eq_of_mem_registered registered first aliased
  rw [same] at named
  exact absurd named (by decide)

theorem aliasingConditions_named :
    ∀ condition ∈ aliasingConditions, ∃ name, name ≠ "" ∧ condition = attributeIs name := by
  intro condition member
  rcases List.mem_append.mp member with early | last
  · exact ⟨"a", by decide, List.eq_of_mem_replicate early⟩
  · exact ⟨"b", by decide, List.mem_singleton.mp last⟩


/-- Past `2 ^ 32` conditions in a binding the table of conditions misses a working condition: the
aliasing configuration expands, and its condition on `b` has no normal form in the table. -/
theorem expansion_tables_miss_aliased_condition :
    ∃ out, (rootBindingConfig aliasingConditions).expand viewerRegistry "demo" = .ok out ∧
      ¬ ∀ normal, normal ∈ out.conditions ↔
        ∃ realm ∈ ((rootBindingConfig aliasingConditions).workingGraph viewerRegistry
            "demo").realms,
          ∃ binding ∈ realm.bindings, ∃ condition ∈ binding.conditions, ∃ restriction,
            condition.restrict = some restriction ∧ normal = restriction.normalize := by
  obtain ⟨out, expanded⟩ := RootBinding.expands aliasingConditions_named
  refine ⟨out, expanded, fun claimed => ?_⟩
  exact aliasing_misses_b expanded _ ((claimed _).mpr
    (RootBinding.attributeIs_working (List.mem_append_right _ (List.mem_singleton_self _)))) rfl

end RealmAccess
