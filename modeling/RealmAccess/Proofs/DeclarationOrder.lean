import RealmAccess.Proofs.Reordering
/-!
# Expansion does not depend on the order of declarations

Reordering a configuration's realms and custom roles, and the bindings, principals, conditions,
parents, permissions, services and values inside them, or repeating entries of the inner lists,
leaves its expansion unchanged; so does reordering the registry's implicit root roles.

The walks number permissions and conditions in the order they first meet them, which a
reordering changes. The expansion sorts and renumbers both tables and lists each realm's
bindings in canonical form, so what it returns is fixed by what the configuration declares:
the permission and condition tables by the declared bindings, and each realm's record by its
direct grants and members and by the services that enforce it.
-/

namespace RealmAccess

namespace Config.Reorders

variable {config config' : Config} {registry registry' : Registry} {project : String}
  {out out' : Expansion} (reordered : config.Reorders config')
  (compatible : Compatible config config' registry registry')
  (checked : config.Checked registry) (checked' : config'.Checked registry')
  (expanded : config.expandUnchecked registry project = .ok out)
  (expanded' : config'.expandUnchecked registry' project = .ok out')
include reordered compatible checked checked' expanded expanded'

theorem permissions_eq : out.permissions = out'.permissions := by
  apply (Config.expansion_permissions_sortedLT expanded).eq_of_mem_iff
    (Config.expansion_permissions_sortedLT expanded')
  intro permission
  rw [checked.expansion_mem_permissions expanded, checked'.expansion_mem_permissions expanded']
  constructor
  · exact reordered.declaredGrant compatible
  · exact reordered.symm.declaredGrant compatible.symm

section Fits32

variable (fits : (config.workingGraph registry project).Fits32)
  (fits' : (config'.workingGraph registry' project).Fits32)
include fits fits'

theorem conditions_eq : out.conditions = out'.conditions := by
  have sameMembers : ∀ normal, normal ∈ out.conditions ↔ normal ∈ out'.conditions := by
    intro normal
    rw [checked.expansion_mem_conditions expanded fits,
      checked'.expansion_mem_conditions expanded' fits']
    constructor
    · exact reordered.declaredCondition compatible
    · exact reordered.symm.declaredCondition compatible.symm
  -- both tables are strictly increasing in their keys, and a key fixes its condition
  have keys : out.conditions.map Restriction.key = out'.conditions.map Restriction.key := by
    apply (Config.expansion_conditions_sortedLT expanded).1.eq_of_mem_iff
      (Config.expansion_conditions_sortedLT expanded').1
    intro key
    simp only [List.mem_map, sameMembers]
  exact List.map_injective_iff.mpr Restriction.key_injective keys

/-- The records of one realm name in the two expansions are equal: they grant the same, list the
same members over the same tables in canonical form, and have the same services. -/
theorem record_eq {realmName : String} {record record' : RealmRecord}
    (member : record ∈ out.realms) (member' : record' ∈ out'.realms)
    (recorded : config.Recorded registry project out realmName record)
    (recorded' : config'.Recorded registry' project out' realmName record') :
    record = record' := by
  have permissions := reordered.permissions_eq compatible checked checked' expanded expanded'
  have conditions := reordered.conditions_eq compatible checked checked' expanded expanded' fits fits'
  -- the views of a record read only the two tables, which the expansions share
  have sameViews : out'.grants = out.grants ∧ out'.members = out.members := by
    cases out
    cases out'
    simp only at permissions conditions
    rw [permissions, conditions]
    exact ⟨rfl, rfl⟩
  have distinctPermissions : out.permissions.Nodup :=
    (Config.expansion_permissions_sortedLT expanded).nodup
  have distinctConditions : out.conditions.Nodup :=
    (Config.expansion_conditions_sortedLT expanded).1.nodup.of_map _
  have canonical := Config.expansion_bindings_canonical expanded record member
  have canonical' := Config.expansion_bindings_canonical expanded' record' member'
  rw [← permissions, ← conditions] at canonical'
  have bindings : record.bindings = record'.bindings := by
    apply Expansion.bindings_eq_of_views distinctPermissions distinctConditions canonical canonical'
    · rw [recorded.grants, reordered.directGrants_eq compatible, ← recorded'.grants, sameViews.1]
    · rw [recorded.members, reordered.directMembers_eq compatible, ← recorded'.members,
        sameViews.2]
  have services : record.services = record'.services :=
    RealmGraph.servicesOf_unique recorded.services
      ((reordered.servicesOf_iff checked checked' compatible.implicitRoles).mpr recorded'.services)
  have named : record.name = record'.name := recorded.named.trans recorded'.named.symm
  cases record
  cases record'
  congr

theorem realms_eq : out.realms = out'.realms := by
  have names : (config.workingGraph registry project).names =
      (config'.workingGraph registry' project).names := by
    apply (RealmGraph.build_names_sortedLT _ _).eq_of_mem_iff (RealmGraph.build_names_sortedLT _ _)
    intro name
    rw [RealmGraph.mem_build_names, RealmGraph.mem_build_names,
      reordered.realmNames_perm.mem_iff]
  have records := checked.expansion_records expanded fits
  have records' := checked'.expansion_records expanded' fits'
  rw [← names] at records'
  exact eq_of_forall₂_of_unique records records' fun _ _ _ member member' recorded recorded' =>
    reordered.record_eq compatible checked checked' expanded expanded' fits fits' member member'
      recorded recorded'

theorem expansion_eq : out = out' := by
  have permissions := reordered.permissions_eq compatible checked checked' expanded expanded'
  have conditions := reordered.conditions_eq compatible checked checked' expanded expanded' fits fits'
  have realms := reordered.realms_eq compatible checked checked' expanded expanded' fits fits'
  cases out
  cases out'
  congr

end Fits32

end Config.Reorders

theorem expansion_ignores_declaration_order {config config' : Config} {registry : Registry}
    {project : String} {out : Expansion} {implicitRoles : List String}
    (expanded : config.expand registry project = .ok out) (reordered : config.Reorders config')
    (sameImplicit : ∀ role, role ∈ registry.implicitRootRoles ↔ role ∈ implicitRoles) :
    ∃ out', config'.expand { registry with implicitRootRoles := implicitRoles } project = .ok out' ∧
      ((config.workingGraph registry project).Fits32 →
        (config'.workingGraph { registry with implicitRootRoles := implicitRoles } project).Fits32 →
        out' = out) := by
  obtain ⟨validated, expandedUnchecked⟩ := Config.expand_eq_ok_iff.mp expanded
  have checked := Config.checked_of_validate validated
  -- validation reads neither the order of declarations nor the implicit root roles
  have valid' := (Config.validate_eq_ok_iff.mp validated).reorder reordered
  have sameValidation : config'.validate { registry with implicitRootRoles := implicitRoles }
      (project = internalProject) = config'.validate registry (project = internalProject) := rfl
  have validated' : config'.validate { registry with implicitRootRoles := implicitRoles }
      (project = internalProject) = .ok () := by
    rw [sameValidation]
    exact Config.validate_eq_ok_iff.mpr valid'
  have checked' := Config.checked_of_validate validated'
  -- the implicit root roles are known, since the first expansion resolved them
  have implicitKnown' : config'.ImplicitRolesKnown
      { registry with implicitRootRoles := implicitRoles } project := by
    intro external role implicit
    have known := checked.implicitRolesKnown_of_expansion expandedUnchecked external role
      ((sameImplicit role).mpr implicit)
    rcases known with ⟨custom, declared⟩ | builtin
    · exact Or.inl ⟨custom, reordered.customNames_perm.mem_iff.mp declared⟩
    · exact Or.inr builtin
  obtain ⟨out', expanded'⟩ := checked'.expandUnchecked_ok implicitKnown'
  have compatible : Config.Reorders.Compatible config config' registry
      { registry with implicitRootRoles := implicitRoles } :=
    ⟨checked.customNames, checked'.customNames, fun _ => rfl, sameImplicit⟩
  refine ⟨out', (Config.expand_eq_ok_iff.mpr ⟨validated', expanded'⟩), fun fits fits' => ?_⟩
  exact (reordered.expansion_eq compatible checked checked' expandedUnchecked expanded' fits
    fits').symm

/-- The sample configuration declared the other way round: realms swapped, a parent and a
condition value repeated, the condition values reordered. -/
def sampleConfigReordered : Config :=
  { customRoles := sampleConfig.customRoles
    realms := [
      { name := "team"
        parents := ["ops", "ops"]
        bindings := [
          { role := "role/viewer"
            principals := ["user:ann"]
            conditions := [⟨some ⟨"ip", ["a", "b", "a"]⟩⟩] }] },
      { name := "ops"
        bindings := [{ role := "customRole/editor", principals := ["group:ops"] }] }] }

theorem sampleConfig_reordered_expands_alike :
    sampleConfig.Reorders sampleConfigReordered ∧
      (∀ role, role ∈ sampleRegistry.implicitRootRoles ↔ role ∈ ["role/viewer", "role/viewer"]) ∧
      ∃ out, sampleConfig.expand sampleRegistry "demo" = .ok out ∧
        sampleConfigReordered.expand
          { sampleRegistry with implicitRootRoles := ["role/viewer", "role/viewer"] } "demo" =
          .ok out := by
  have reordered : sampleConfig.Reorders sampleConfigReordered := by
    refine ⟨⟨sampleConfig.realms.reverse, (List.reverse_perm _).symm, ?_⟩,
      ⟨sampleConfig.customRoles, List.Perm.refl _, ?_⟩⟩
    · exact .cons (by decide +kernel) (.cons (by decide +kernel) .nil)
    · exact .cons (by decide +kernel) .nil
  have sameImplicit : ∀ role, role ∈ sampleRegistry.implicitRootRoles ↔
      role ∈ ["role/viewer", "role/viewer"] := by
    intro role
    simp [sampleRegistry]
  have fits' : (sampleConfigReordered.workingGraph
      { sampleRegistry with implicitRootRoles := ["role/viewer", "role/viewer"] } "demo").Fits32 :=
    RealmGraph.build_fits32 (by decide +kernel) (by decide +kernel) (by decide +kernel)
      (by decide +kernel)
  have checked := Config.checked_of_validate sampleConfig_valid
  obtain ⟨out, expanded⟩ := checked.expandUnchecked_ok sampleConfig_implicitRolesKnown
  rw [← Config.expand_eq_of_valid sampleConfig_valid] at expanded
  obtain ⟨out', expanded', same⟩ := expansion_ignores_declaration_order expanded reordered sameImplicit
  rw [same sampleConfig_fits32 fits'] at expanded'
  exact ⟨reordered, sameImplicit, out, expanded, expanded'⟩

/-- The root binding under one condition on `a` and one on `b`, declared with the condition on
`a` repeated `2 ^ 32` times. -/
theorem rootBindingConfig_reorders_aliasing :
    (rootBindingConfig [attributeIs "a", attributeIs "b"]).Reorders
      (rootBindingConfig aliasingConditions) := by
  have sameConditions : SameMembers [attributeIs "a", attributeIs "b"] aliasingConditions := by
    intro condition
    rw [aliasingConditions, List.mem_append, List.mem_replicate, List.mem_singleton, List.mem_pair]
    constructor
    · rintro (rfl | rfl)
      · exact Or.inl ⟨by decide, rfl⟩
      · exact Or.inr rfl
    · rintro (⟨-, rfl⟩ | rfl)
      · exact Or.inl rfl
      · exact Or.inr rfl
  have sameBinding : Binding.SameAs
      { role := "role/viewer", principals := ["user:x"],
        conditions := [attributeIs "a", attributeIs "b"] }
      { role := "role/viewer", principals := ["user:x"], conditions := aliasingConditions } :=
    ⟨rfl, SameMembers.refl _, Alike.of_sameMembers Condition.SameAs.refl sameConditions⟩
  refine ⟨⟨_, List.Perm.refl _, .cons ⟨rfl, SameMembers.refl _, ?_, SameMembers.refl _⟩ .nil⟩,
    ⟨[], List.Perm.refl _, .nil⟩⟩
  constructor
  · intro binding listed
    rw [List.mem_singleton.mp listed]
    exact ⟨_, List.mem_singleton_self _, sameBinding⟩
  · intro binding listed
    rw [List.mem_singleton.mp listed]
    exact ⟨_, List.mem_singleton_self _, sameBinding⟩

/-- Past `2 ^ 32` conditions in a binding, repeating a condition changes the expansion: the root
binding under one condition on `a` and one on `b` expands with a condition on `b`, and the same
binding with the condition on `a` repeated `2 ^ 32` times expands without one. -/
theorem expansion_depends_on_repeated_conditions :
    ¬ ∀ (config config' : Config) (registry : Registry) (project : String) (out : Expansion)
        (implicitRoles : List String),
      config.expand registry project = .ok out → config.Reorders config' →
      (∀ role, role ∈ registry.implicitRootRoles ↔ role ∈ implicitRoles) →
      config'.expand { registry with implicitRootRoles := implicitRoles } project = .ok out := by
  intro claimed
  have named : ∀ condition ∈ [attributeIs "a", attributeIs "b"],
      ∃ name, name ≠ "" ∧ condition = attributeIs name := by
    intro condition member
    rcases List.mem_pair.mp member with rfl | rfl
    · exact ⟨"a", by decide, rfl⟩
    · exact ⟨"b", by decide, rfl⟩
  obtain ⟨out, expanded⟩ := RootBinding.expands named
  -- the two conditions have slots of their own, so the condition on `b` is in the table
  have fits : ((rootBindingConfig [attributeIs "a", attributeIs "b"]).workingGraph viewerRegistry
      "demo").Fits32 :=
    RealmGraph.build_fits32 (by decide +kernel) (by decide +kernel) (by decide +kernel)
      (by decide +kernel)
  obtain ⟨-, unchecked⟩ := Config.expand_eq_ok_iff.mp expanded
  have onB : (⟨"b", ["v"]⟩ : Restriction) ∈ out.conditions :=
    (Config.expansion_mem_conditions unchecked fits).mpr
      (RootBinding.attributeIs_working (List.mem_cons_of_mem _ (List.mem_singleton_self _)))
  have expanded' := claimed _ _ _ _ _ [] expanded rootBindingConfig_reorders_aliasing
    fun _ => Iff.rfl
  exact aliasing_misses_b expanded' _ onB rfl

end RealmAccess
