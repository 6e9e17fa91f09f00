import RealmAccess.Proofs.Ancestry
import RealmAccess.Proofs.Completion
import RealmAccess.Proofs.ConditionNumbering
/-!
# A valid configuration expands

Validation rules out every error of expansion: each role a binding names resolves, every
condition restricts something, every parent a realm names is known, and no realm or custom role
inherits from itself. So a configuration that passes validation expands, provided the project's
implicit root roles are known roles too, which validation does not look at.
-/

namespace RealmAccess

namespace Config

variable {config : Config} {registry : Registry} {project : String}

/-- The project's implicit root roles, which the root binds to the project, are known roles. -/
def ImplicitRolesKnown (config : Config) (registry : Registry) (project : String) : Prop :=
  project ≠ internalProject →
    ∀ role ∈ registry.implicitRootRoles, RoleKnown registry (config.customRoles.map (·.name)) role

namespace Checked

variable (checked : config.Checked registry)
include checked

/-- Every binding of a working realm is declared or implicit, so every condition of it
restricts something. -/
theorem working_restricted :
    ∀ realm ∈ (config.workingGraph registry project).realms, ∀ binding ∈ realm.bindings,
      ∀ condition ∈ binding.conditions, condition.restrict.isSome := by
  intro realm working binding listed condition conditionListed
  rcases (checked.mem_working_bindings working).mp listed with
    ⟨declared, member, -, declaredListed⟩ | ⟨-, -, role, -, rfl⟩
  · exact checked.restricted declared member binding declaredListed condition conditionListed
  · cases conditionListed

theorem working_rolesKnown (implicitKnown : config.ImplicitRolesKnown registry project) :
    ∀ realm ∈ (config.workingGraph registry project).realms, ∀ binding ∈ realm.bindings,
      RoleKnown registry (config.customRoles.map (·.name)) binding.role := by
  intro realm working binding listed
  rcases (checked.mem_working_bindings working).mp listed with
    ⟨declared, member, -, declaredListed⟩ | ⟨-, external, role, implicit, rfl⟩
  · exact checked.bindingRoles declared member binding declaredListed
  · exact implicitKnown external role implicit

/-- The walker of a checked configuration, over a table that registers every slot, runs every
walk and every search for services to its end. -/
theorem runnable (implicitKnown : config.ImplicitRolesKnown registry project)
    {table : ConditionTable}
    (registered : ∀ item ∈ (config.workingGraph registry project).slots,
      (table.slots.lookup item.1).isSome) :
    (config.walkerOf registry project table.finalize.1).Runnable where
  resolvable := checked.resolvable
  rolesKnown := checked.working_rolesKnown implicitKnown
  indexed item member := ConditionTable.index_finalize_ok (registered item member)
  parentsKnown realm working name listed := by
    rcases (RealmGraph.mem_parentNames.mp listed).2 with rfl | declared
    · exact RealmGraph.mem_build_names.mpr (Or.inr rfl)
    · exact checked.mem_workingGraph_names_of_extends
        ((checked.mem_working_parents working).mp declared)
  distinct := workingGraph_names_nodup
  stepAcyclic := checked.not_step_cycle
  namesAcyclic := checked.not_nameStep_cycle

/-- A checked configuration, with known implicit root roles, expands. -/
theorem expandUnchecked_ok (implicitKnown : config.ImplicitRolesKnown registry project) :
    ∃ out, config.expandUnchecked registry project = .ok out := by
  obtain ⟨table, added⟩ := ConditionTable.addAll_ok {}
    (RealmGraph.slots_restricted checked.working_restricted)
  obtain ⟨registered, -⟩ := ConditionTable.addAll_registers added
  have runnable := checked.runnable implicitKnown registered
  rcases walked : ((config.walkerOf registry project table.finalize.1).expandRealms
      (config.workingGraph registry project).realms).run.run {} with ⟨result, memo⟩
  obtain ⟨entries, rfl⟩ := Walker.expandRealms_runs runnable _ (fun _ member => member)
    (RoleMemo.sound_empty _) (fun _ member => by cases member) walked
  exact Config.expandUnchecked_ok added walked

end Checked

theorem expand_eq_ok_iff {out : Expansion} :
    config.expand registry project = .ok out ↔
      config.validate registry (project = internalProject) = .ok () ∧
        config.expandUnchecked registry project = .ok out := by
  unfold Config.expand
  split
  · next violation failed => simp [failed]
  · next valid => simp [valid]

theorem expand_eq_of_valid (valid : config.validate registry (project = internalProject) = .ok ()) :
    config.expand registry project = config.expandUnchecked registry project := by
  unfold expand
  rw [valid]

theorem validated_expansion_succeeds
    (valid : config.validate registry (project = internalProject) = .ok ())
    (implicitKnown : config.ImplicitRolesKnown registry project) :
    ∃ out, config.expandUnchecked registry project = .ok out ∧
      config.expand registry project = .ok out := by
  obtain ⟨out, expanded⟩ := (checked_of_validate valid).expandUnchecked_ok implicitKnown
  exact ⟨out, expanded, (expand_eq_of_valid valid).trans expanded⟩

end Config

/-! ### A sample configuration -/

/-- A registry with one built-in role, which every project also grants to itself. -/
def sampleRegistry : Registry :=
  { roles := [{ name := "role/viewer", permissions := ["read"] }]
    permissions := [{ name := "read" }, { name := "write" }]
    implicitRootRoles := ["role/viewer"] }

/-- A configuration with a custom role that extends the built-in one, and a realm that extends
another and binds under a condition whose values are out of order. -/
def sampleConfig : Config :=
  { customRoles := [
      { name := "customRole/editor"
        parents := ["role/viewer"]
        permissions := ["write"] }]
    realms := [
      { name := "ops"
        bindings := [{ role := "customRole/editor", principals := ["group:ops"] }] },
      { name := "team"
        parents := ["ops"]
        bindings := [
          { role := "role/viewer"
            principals := ["user:ann"]
            conditions := [⟨some ⟨"ip", ["b", "a"]⟩⟩] }] }] }

theorem sampleConfig_valid :
    sampleConfig.validate sampleRegistry ("demo" = internalProject) = .ok () := by
  have realmsAcyclic : (realmInheritance sampleConfig.realms).findCycle
      (sampleConfig.realms.map (·.name)) = none := by
    simp [sampleConfig, rootRealm, realmInheritance, Inheritance.findCycle,
      Inheritance.findCycleFrom, Inheritance.parentsOf, Inheritance.visitParents]
  have customAcyclic : (customRoleInheritance sampleConfig.customRoles).findCycle
      (sampleConfig.customRoles.map (·.name)) = none := by
    have filtered : customRoleInheritance sampleConfig.customRoles =
        [("customRole/editor", [])] := by
      decide +kernel
    rw [filtered]
    simp [sampleConfig, Inheritance.findCycle, Inheritance.findCycleFrom, Inheritance.parentsOf,
      Inheritance.visitParents]
  unfold Config.validate checkCustomRoles checkRealms
  simp only [realmsAcyclic, customAcyclic]
  decide +kernel

theorem sampleConfig_implicitRolesKnown : sampleConfig.ImplicitRolesKnown sampleRegistry "demo" := by
  intro _ role member
  rw [show sampleRegistry.implicitRootRoles = ["role/viewer"] from rfl,
    List.mem_singleton] at member
  subst member
  right
  decide +kernel

theorem sampleConfig_fits32 : (sampleConfig.workingGraph sampleRegistry "demo").Fits32 :=
  RealmGraph.build_fits32 (by decide +kernel) (by decide +kernel) (by decide +kernel)
    (by decide +kernel)

theorem sampleConfig_expands :
    sampleConfig.validate sampleRegistry ("demo" = internalProject) = .ok () ∧
      sampleConfig.ImplicitRolesKnown sampleRegistry "demo" ∧
      ∃ out, sampleConfig.expandUnchecked sampleRegistry "demo" = .ok out ∧
        sampleConfig.expand sampleRegistry "demo" = .ok out :=
  ⟨sampleConfig_valid, sampleConfig_implicitRolesKnown,
    Config.validated_expansion_succeeds sampleConfig_valid sampleConfig_implicitRolesKnown⟩

end RealmAccess
