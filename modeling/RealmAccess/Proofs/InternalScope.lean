import RealmAccess.Proofs.Resolution
import RealmAccess.Proofs.ValidExpansion
/-!
# Internal entries stay with the internal project

Checked for an ordinary project, a configuration names no internal built-in role and no internal
permission. The checks look at each custom role and each binding on its own, but a custom role
may only extend usable roles, so every role that a binding's role reaches through custom roles
is usable as well, however long the chain: the built-in roles among them are known and not
internal, and the custom roles among them declare only known permissions that are not internal.
So, through its own bindings, an ordinary project is granted only permissions that a
non-internal built-in role lists or that are not internal themselves. The implicit root roles
come from the registry and are not checked.
-/

namespace RealmAccess

namespace Config

variable {config : Config} {registry : Registry} {internal : Bool}

/-- Every role a custom role extends is usable. -/
theorem Valid.usable_of_extends (valid : config.Valid registry internal) {child parent : String}
    (step : (RoleSource.mk registry config.customRoles).Extends child parent) :
    RoleUsable registry internal (config.customRoles.map (·.name)) parent := by
  obtain ⟨-, role, found, listed⟩ := step
  exact (valid.customRoles role (RoleSource.mem_of_customRole? found)).2 parent listed

/-- Every role that the role of a checked binding reaches is usable. -/
theorem Valid.usable_of_reach (valid : config.Valid registry internal) {realm : Realm}
    (declared : realm ∈ config.realms) {binding : Binding} (listed : binding ∈ realm.bindings)
    {name : String}
    (reached : Relation.ReflTransGen (RoleSource.mk registry config.customRoles).Extends
      binding.role name) :
    RoleUsable registry internal (config.customRoles.map (·.name)) name := by
  -- the binding's own role is checked; every later role is a parent of a custom role
  induction reached with
  | refl => exact ((valid.realms realm declared).bindings binding listed).role
  | tail _ step _ => exact valid.usable_of_extends step

/-- The permissions a custom role of a configuration checked outside the internal project
declares are known and not internal. -/
theorem Valid.declared_not_internal (valid : config.Valid registry false) {name : String}
    {role : CustomRole} (found : (RoleSource.mk registry config.customRoles).customRole? name = some role)
    {permission : String} (member : permission ∈ role.permissions) :
    ∃ known, registry.permission? permission = some known ∧ known.internal = false := by
  obtain ⟨known, found', allowed⟩ :=
    (valid.customRoles role (RoleSource.mem_of_customRole? found)).1 permission member
  exact ⟨known, found', Bool.eq_false_iff.mpr fun isInternal => Bool.false_ne_true (allowed isInternal)⟩

end Config

/-- A role usable outside the internal project, named without the custom prefix, is a known
built-in role that is not internal. -/
theorem RoleUsable.builtin_not_internal {registry : Registry} {names : List String}
    {name : String} (usable : RoleUsable registry false names name)
    (notCustom : name.startsWith customRolePrefix = false) :
    name.startsWith builtinRolePrefix = true ∧
      ∃ role, registry.role? name = some role ∧ role.internal = false := by
  rcases usable with ⟨custom, -⟩ | ⟨-, builtin, role, found, allowed⟩
  · rw [notCustom] at custom
    cases custom
  · exact ⟨builtin, role, found,
      Bool.eq_false_iff.mpr fun isInternal => Bool.false_ne_true (allowed isInternal)⟩

namespace Config

variable {config : Config} {registry : Registry}

/-- What a binding of a configuration checked outside the internal project grants comes from a
non-internal built-in role its role reaches, or is a permission that is not internal. -/
theorem Valid.granted_not_internal (valid : config.Valid registry false) {realm : Realm}
    (declared : realm ∈ config.realms) {binding : Binding} (listed : binding ∈ realm.bindings)
    {permission : String}
    (granted : (RoleSource.mk registry config.customRoles).Grants binding.role permission) :
    (∃ name role, Relation.ReflTransGen (RoleSource.mk registry config.customRoles).Extends
        binding.role name ∧ name.startsWith builtinRolePrefix = true ∧
        registry.role? name = some role ∧ role.internal = false ∧ permission ∈ role.permissions) ∨
      ∃ known, registry.permission? permission = some known ∧ known.internal = false := by
  obtain ⟨name, reached, declares⟩ := granted.exists_declaring
  rcases declares with ⟨builtin, role, found, member⟩ | ⟨-, role, found, member⟩
  · -- a built-in role reached from a checked binding is usable, so not internal
    have usable := valid.usable_of_reach declared listed reached
    obtain ⟨-, role', found', notInternal⟩ :=
      usable.builtin_not_internal (not_custom_of_builtin builtin)
    rw [found] at found'
    cases found'
    exact Or.inl ⟨name, role, reached, builtin, found, notInternal, member⟩
  · exact Or.inr (valid.declared_not_internal found member)

end Config

theorem validation_keeps_internal_entries_out {config : Config} {registry : Registry}
    (valid : config.validate registry false = .ok ()) :
    (∀ realm ∈ config.realms, ∀ binding ∈ realm.bindings, ∀ name,
      Relation.ReflTransGen (RoleSource.mk registry config.customRoles).Extends binding.role name →
        (name.startsWith customRolePrefix = false →
          name.startsWith builtinRolePrefix = true ∧
            ∃ role, registry.role? name = some role ∧ role.internal = false) ∧
        ∀ role, (RoleSource.mk registry config.customRoles).customRole? name = some role →
          ∀ permission ∈ role.permissions,
            ∃ known, registry.permission? permission = some known ∧ known.internal = false) ∧
    ∀ project, project ≠ internalProject → ∀ out, config.expand registry project = .ok out →
      ∀ permission ∈ out.permissions, ∀ realm ∈ config.realms, ∀ binding ∈ realm.bindings,
        (RoleSource.mk registry config.customRoles).Grants binding.role permission →
        (∃ name role, Relation.ReflTransGen (RoleSource.mk registry config.customRoles).Extends
            binding.role name ∧ name.startsWith builtinRolePrefix = true ∧
            registry.role? name = some role ∧ role.internal = false ∧
            permission ∈ role.permissions) ∨
          ∃ known, registry.permission? permission = some known ∧ known.internal = false := by
  have checked := Config.validate_eq_ok_iff.mp valid
  refine ⟨fun realm declared binding listed name reached => ⟨fun notCustom => ?_,
    fun role found permission member => checked.declared_not_internal found member⟩,
    fun _ _ _ _ permission _ realm declared binding listed granted =>
      checked.granted_not_internal declared listed granted⟩
  exact (checked.usable_of_reach declared listed reached).builtin_not_internal notCustom

theorem sampleConfig_keeps_internal_entries_out :
    sampleConfig.validate sampleRegistry false = .ok () ∧
    (∀ realm ∈ sampleConfig.realms, ∀ binding ∈ realm.bindings, ∀ name,
      Relation.ReflTransGen (RoleSource.mk sampleRegistry sampleConfig.customRoles).Extends
        binding.role name →
        (name.startsWith customRolePrefix = false →
          name.startsWith builtinRolePrefix = true ∧
            ∃ role, sampleRegistry.role? name = some role ∧ role.internal = false) ∧
        ∀ role, (RoleSource.mk sampleRegistry sampleConfig.customRoles).customRole? name = some role →
          ∀ permission ∈ role.permissions,
            ∃ known, sampleRegistry.permission? permission = some known ∧ known.internal = false) ∧
    ∀ project, project ≠ internalProject → ∀ out, sampleConfig.expand sampleRegistry project = .ok out →
      ∀ permission ∈ out.permissions, ∀ realm ∈ sampleConfig.realms, ∀ binding ∈ realm.bindings,
        (RoleSource.mk sampleRegistry sampleConfig.customRoles).Grants binding.role permission →
        (∃ name role, Relation.ReflTransGen
            (RoleSource.mk sampleRegistry sampleConfig.customRoles).Extends binding.role name ∧
            name.startsWith builtinRolePrefix = true ∧ sampleRegistry.role? name = some role ∧
            role.internal = false ∧ permission ∈ role.permissions) ∨
          ∃ known, sampleRegistry.permission? permission = some known ∧ known.internal = false := by
  have ordinary : decide ("demo" = internalProject) = false := by decide
  have valid := sampleConfig_valid
  rw [ordinary] at valid
  exact ⟨valid, validation_keeps_internal_entries_out valid⟩

end RealmAccess
