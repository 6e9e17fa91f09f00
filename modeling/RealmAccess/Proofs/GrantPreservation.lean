import RealmAccess.Proofs.Granted
import RealmAccess.Proofs.Ancestry
import RealmAccess.Proofs.Tables
/-!
# Expansion keeps every grant

The expansion of a valid configuration grants, in each working realm, exactly what a direct
reading of the configuration gives (`Config.directGrants`): every principal of every binding
declared by a realm the realm inherits from holds every permission of the binding's role, under
the normal forms of the binding's conditions. Nothing is lost or added by numbering conditions,
resolving roles, walking the realm graph, grouping the grants and renumbering the permissions.
-/

namespace RealmAccess

/-- `normal` is `restriction` in normal form: the same attribute, and the same values sorted
without repeats. -/
def Restriction.NormalOf (normal restriction : Restriction) : Prop :=
  normal.attributeName = restriction.attributeName ∧ normal.values.SortedLT ∧
    ∀ value, value ∈ normal.values ↔ value ∈ restriction.values

theorem Restriction.normalOf_iff {normal restriction : Restriction} :
    normal.NormalOf restriction ↔ normal = restriction.normalize := by
  constructor
  · rintro ⟨named, sorted, sameValues⟩
    have values : normal.values = restriction.normalize.values :=
      sorted.eq_of_mem_iff (Restriction.normalize_values_sortedLT restriction) fun value => by
        rw [sameValues, Restriction.mem_normalize_values]
    obtain ⟨attributeName, normalValues⟩ := normal
    change attributeName = restriction.attributeName at named
    change normalValues = restriction.normalize.values at values
    rw [named, values]
    rfl
  · rintro rfl
    exact ⟨Restriction.normalize_attributeName restriction,
      Restriction.normalize_values_sortedLT restriction,
      fun _ => Restriction.mem_normalize_values⟩

theorem Binding.normalConditions_eq (binding : Binding) :
    binding.normalConditions =
      { normal | ∃ condition ∈ binding.conditions, ∃ restriction,
          condition.restrict = some restriction ∧ normal.NormalOf restriction } := by
  ext normal
  simp only [Binding.normalConditions, Set.mem_ofPred_eq, Restriction.normalOf_iff]

/-- What a realm grants by a direct reading of the configuration: every principal of every
binding declared by a realm it inherits from holds every permission of the binding's role,
under the normal forms of the binding's conditions. -/
def Config.directGrants (config : Config) (registry : Registry) (project name : String) :
    Set (String × String × Set Restriction) :=
  { grant | ∃ ancestor binding, config.InheritsFrom name ancestor ∧
      config.DeclaresBinding registry project ancestor binding ∧
      grant.1 ∈ binding.principals ∧
      RoleSource.Grants ⟨registry, config.customRoles⟩ binding.role grant.2.1 ∧
      grant.2.2 = { normal | ∃ condition ∈ binding.conditions, ∃ restriction,
        condition.restrict = some restriction ∧ normal.NormalOf restriction } }

/-- The grants of a walked realm of a checked configuration whose working realm list fits 32 bits
are its direct grants. -/
theorem Config.Outcome.grants_eq {config : Config} {registry : Registry} {project : String}
    {table : ConditionTable} {entries : List (String × List BindingRecord × Option (List String))}
    {memo : WalkMemo} (outcome : config.Outcome registry project table entries memo)
    (fits : (config.workingGraph registry project).Fits32)
    (checked : config.Checked registry) {realm : Realm}
    {entry : String × List BindingRecord × Option (List String)}
    (expands : (config.walkerOf registry project table.finalize.1).Expands memo.roles.table
      realm entry)
    {r : Nat} (positioned : (config.workingGraph registry project).position realm.name = .ok r)
    {realms : List RealmRecord} :
    Expansion.grants ⟨memo.roles.table.sorted.names, table.finalize.2, realms⟩
        (RealmRecord.ofEntry project memo.roles.table.sorted entry) =
      config.directGrants registry project realm.name := by
  have named := (RealmGraph.position_eq_ok_iff Config.workingGraph_names_nodup).mp positioned
  ext ⟨principal, permission, conditions⟩
  rw [outcome.mem_grants fits expands positioned]
  refine (checked.exists_reach_binding_iff named fun binding =>
    principal ∈ binding.principals ∧
      RoleSource.Grants ⟨registry, config.customRoles⟩ binding.role permission ∧
      conditions = binding.normalConditions).trans ?_
  simp only [Binding.normalConditions_eq]
  rfl

theorem expansion_keeps_every_grant {config : Config} {registry : Registry} {project : String}
    {out : Expansion} (expanded : config.expand registry project = .ok out) {name : String}
    (working : name ∈ config.realms.map (·.name) ∨ name = rootRealm) :
    ∃ record ∈ out.realms, record.name = project ++ ":" ++ name ∧
      ((config.workingGraph registry project).Fits32 →
        out.grants record = config.directGrants registry project name) := by
  obtain ⟨valid, expandedUnchecked⟩ := Config.expand_eq_ok_iff.mp expanded
  have checked := Config.checked_of_validate valid
  obtain ⟨table, entries, memo, outcome, rfl⟩ := Config.expandUnchecked_outcome expandedUnchecked
  obtain ⟨realm, member, rfl⟩ := List.mem_map.mp (RealmGraph.mem_build_names.mpr working)
  obtain ⟨entry, entryMember, expands⟩ := exists_of_forall₂_left outcome.expands member
  obtain ⟨r, -, positioned, -⟩ := expands.walked
  refine ⟨RealmRecord.ofEntry project memo.roles.table.sorted entry,
    List.mem_map_of_mem entryMember, ?_, fun fits => outcome.grants_eq fits checked expands positioned⟩
  show project ++ ":" ++ entry.1 = _
  rw [expands.name]

theorem sampleConfig_keeps_every_grant :
    ∃ out, sampleConfig.expand sampleRegistry "demo" = .ok out ∧
      ∃ record ∈ out.realms, record.name = "demo" ++ ":" ++ "team" ∧
        ((sampleConfig.workingGraph sampleRegistry "demo").Fits32 →
          out.grants record = sampleConfig.directGrants sampleRegistry "demo" "team") := by
  obtain ⟨out, expanded⟩ := (Config.checked_of_validate sampleConfig_valid).expandUnchecked_ok
    sampleConfig_implicitRolesKnown
  rw [← Config.expand_eq_of_valid sampleConfig_valid] at expanded
  exact ⟨out, expanded, expansion_keeps_every_grant expanded (Or.inl (by decide +kernel))⟩

/-- Past `2 ^ 32` conditions in a binding a grant loses a condition: in the expansion of the
aliasing configuration the root grants `read` to `user:x` under the conditions on `a` alone,
while the configuration declares it under the condition on `b` too. -/
theorem expansion_loses_aliased_grant :
    ∃ out, (rootBindingConfig aliasingConditions).expand viewerRegistry "demo" = .ok out ∧
      ¬ ∃ record ∈ out.realms, record.name = "demo" ++ ":" ++ rootRealm ∧
        out.grants record =
          (rootBindingConfig aliasingConditions).directGrants viewerRegistry "demo" rootRealm := by
  obtain ⟨out, expanded⟩ := RootBinding.expands aliasingConditions_named
  refine ⟨out, expanded, ?_⟩
  rintro ⟨record, -, -, same⟩
  -- the declared root binding grants `read` to `user:x` under its conditions, `b` among them
  have declared : ("user:x", "read", { normal | ∃ condition ∈ aliasingConditions, ∃ restriction,
      condition.restrict = some restriction ∧ normal.NormalOf restriction }) ∈
      (rootBindingConfig aliasingConditions).directGrants viewerRegistry "demo" rootRealm :=
    ⟨rootRealm, _, Or.inl .refl, Or.inl ⟨_, List.mem_singleton_self _, rfl, List.mem_singleton_self _⟩,
      List.mem_singleton_self _, .builtin (by decide +kernel) rfl (List.mem_singleton_self _), rfl⟩
  rw [← same] at declared
  obtain ⟨binding, -, -, -, conditions⟩ := declared
  have onB : (⟨"b", ["v"]⟩ : Restriction) ∈
      { condition | ∃ j ∈ binding.conditions, out.conditions[j]? = some condition } := by
    rw [← conditions]
    exact ⟨attributeIs "b", List.mem_append_right _ (List.mem_singleton_self _), _, rfl,
      Restriction.normalOf_iff.mpr (Restriction.normalize_single_value _ _).symm⟩
  obtain ⟨j, -, found⟩ := onB
  exact aliasing_misses_b expanded _ (List.mem_of_getElem? found) rfl

end RealmAccess
