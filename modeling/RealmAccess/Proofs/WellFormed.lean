import Mathlib.Data.List.TakeWhile
import RealmAccess.Proofs.Reordering
import RealmAccess.Proofs.Resolution
/-!
# Validation accepts exactly the well-formed configurations

`Config.WellFormed` lists the rules of a configuration in their own terms, without the checks
that test them: names and prefixes, what the registry must know, the forms of realm names,
principals and conditions, and inheritance without cycles. Validation accepts a configuration
exactly when it is well formed (`Config.validate_accepts_exactly_wellFormed`).

Three rules read differently from their checks. A realm name that is not special needs no test
for a leading `@`, since `@` is not a realm name character. A principal's test splits it at its
first colon, which is the same as writing it `<kind>:<value>` with no colon in the kind. And
inheritance is read on the declared roles and realms themselves: with distinct names, the map
the checks build has the same edges.
-/

namespace RealmAccess

/-! ### The rules -/

/-- The internal check: internal entries are allowed, or the entry is not internal. -/
def InternalAllowed (internal flag : Bool) : Prop :=
  internal = true ∨ flag = false

/-- A character of an ordinary realm name: `a-z`, `0-9`, `_`, `.`, `-` or `/`. -/
def RealmNameChar (c : Char) : Prop :=
  ('a' ≤ c ∧ c ≤ 'z') ∨ ('0' ≤ c ∧ c ≤ '9') ∨ c = '_' ∨ c = '.' ∨ c = '-' ∨ c = '/'

/-- A role that a binding may name, or a custom role may extend: a declared custom role, or a
built-in role that the registry knows and that passes the internal check. -/
def Config.RoleAllowed (config : Config) (registry : Registry) (internal : Bool) (name : String) :
    Prop :=
  (name.startsWith customRolePrefix = true ∧ name ∈ config.customRoles.map (·.name)) ∨
    (name.startsWith builtinRolePrefix = true ∧
      ∃ role, registry.role? name = some role ∧ InternalAllowed internal role.internal)

/-- `parent` is a custom-prefixed role that the custom role `child` extends. -/
def Config.CustomExtends (config : Config) (parent child : String) : Prop :=
  ∃ role ∈ config.customRoles, role.name = child ∧ parent ∈ role.parents ∧
    parent.startsWith customRolePrefix = true

/-- `parent` is a realm other than the root that the realm `child` extends. -/
def Config.RealmExtends (config : Config) (parent child : String) : Prop :=
  ∃ realm ∈ config.realms, realm.name = child ∧ parent ∈ realm.parents ∧ parent ≠ rootRealm

/-- The configurations validation accepts, rule by rule. -/
structure Config.WellFormed (config : Config) (registry : Registry) (internal : Bool) : Prop where
  customPrefixed : ∀ role ∈ config.customRoles, role.name.startsWith customRolePrefix = true
  customDistinct : (config.customRoles.map (·.name)).Nodup
  permissionsKnown : ∀ role ∈ config.customRoles, ∀ name ∈ role.permissions,
    ∃ permission, registry.permission? name = some permission ∧
      InternalAllowed internal permission.internal
  customParents : ∀ role ∈ config.customRoles, ∀ parent ∈ role.parents,
    config.RoleAllowed registry internal parent
  customAcyclic : ∀ name, ¬ Relation.TransGen config.CustomExtends name name
  realmNames : ∀ realm ∈ config.realms, realm.name = rootRealm ∨ realm.name = legacyRealm ∨
    (1 ≤ realm.name.length ∧ realm.name.length ≤ 400 ∧ ∀ c ∈ realm.name.toList, RealmNameChar c)
  realmDistinct : (config.realms.map (·.name)).Nodup
  notSelfExtending : ∀ realm ∈ config.realms, realm.name ∉ realm.parents
  rootExtendsNothing : ∀ realm ∈ config.realms, realm.name = rootRealm → realm.parents = []
  parentsDeclared : ∀ realm ∈ config.realms, ∀ parent ∈ realm.parents,
    parent = rootRealm ∨ parent ∈ config.realms.map (·.name)
  servicesNamed : ∀ realm ∈ config.realms, ∀ service ∈ realm.enforceInService, service ≠ ""
  bindingRoles : ∀ realm ∈ config.realms, ∀ binding ∈ realm.bindings,
    config.RoleAllowed registry internal binding.role
  principals : ∀ realm ∈ config.realms, ∀ binding ∈ realm.bindings,
    ∀ principal ∈ binding.principals, ∃ kind value, principal = kind ++ ":" ++ value ∧
      ':' ∉ kind.toList ∧ kind ≠ "" ∧ value ≠ ""
  conditions : ∀ realm ∈ config.realms, ∀ binding ∈ realm.bindings,
    ∀ condition ∈ binding.conditions, ∃ restriction, condition.restrict = some restriction ∧
      restriction.attributeName ≠ "" ∧ registry.allowsAttribute restriction.attributeName = true ∧
      restriction.values ≠ []
  realmsAcyclic : ∀ name, ¬ Relation.TransGen config.RealmExtends name name

/-! ### Each check read as its rule -/

theorem internalAllowed_iff {internal flag : Bool} :
    (flag = true → internal = true) ↔ InternalAllowed internal flag := by
  unfold InternalAllowed
  cases flag <;> cases internal <;> simp

theorem realmNameChar_iff {c : Char} : isRealmNameChar c = true ↔ RealmNameChar c := by
  unfold isRealmNameChar RealmNameChar
  simp only [Bool.or_eq_true, Bool.and_eq_true, decide_eq_true_eq, or_assoc]

/-- An ordinary realm name does not start with `@`, which is not one of its characters. -/
theorem startsWith_at_of_isRealmName {name : String} (ordinary : isRealmName name = true) :
    name.startsWith "@" = false := by
  rw [Bool.eq_false_iff]
  intro special
  obtain ⟨rest, split⟩ := String.startsWith_string_iff.mp special
  have atChar : '@' ∈ name.toList := by
    rw [← split]
    exact List.mem_append_left rest (by simp)
  unfold isRealmName at ordinary
  simp only [Bool.and_eq_true, List.all_eq_true] at ordinary
  have isChar := ordinary.2 '@' atChar
  simp [isRealmNameChar] at isChar

theorem realmNameValid_iff {name : String} :
    RealmNameValid name ↔ name = rootRealm ∨ name = legacyRealm ∨
      (1 ≤ name.length ∧ name.length ≤ 400 ∧ ∀ c ∈ name.toList, RealmNameChar c) := by
  have ordinary : isRealmName name = true ↔
      1 ≤ name.length ∧ name.length ≤ 400 ∧ ∀ c ∈ name.toList, RealmNameChar c := by
    unfold isRealmName
    simp only [Bool.and_eq_true, decide_eq_true_eq, List.all_eq_true, realmNameChar_iff, and_assoc]
  unfold RealmNameValid
  rw [← ordinary]
  constructor
  · rintro (root | legacy | ⟨-, valid⟩)
    · exact Or.inl root
    · exact Or.inr (Or.inl legacy)
    · exact Or.inr (Or.inr valid)
  · rintro (root | legacy | valid)
    · exact Or.inl root
    · exact Or.inr (Or.inl legacy)
    · exact Or.inr (Or.inr ⟨startsWith_at_of_isRealmName valid, valid⟩)

/-- The principal test splits at the first colon: the text before it and after it must both be
nonempty. -/
theorem isPrincipal_iff {principal : String} :
    isPrincipal principal = true ↔ ∃ kind value, principal = kind ++ ":" ++ value ∧
      ':' ∉ kind.toList ∧ kind ≠ "" ∧ value ≠ "" := by
  have colonFree : ∀ (kind : List Char), ':' ∉ kind → ∀ c ∈ kind, decide (c ≠ ':') = true :=
    fun kind noColon c member => decide_eq_true fun colon => noColon (colon ▸ member)
  unfold isPrincipal
  constructor
  · intro accepted
    split at accepted
    · next colon value dropped =>
        simp only [Bool.and_eq_true, Bool.not_eq_true', List.isEmpty_eq_false_iff] at accepted
        let kind := principal.toList.takeWhile (· ≠ ':')
        -- the first character kept by `dropWhile` is the colon
        have chars : principal.toList = kind ++ ':' :: value := (dropWhile_ne_eq_cons dropped).2
        refine ⟨String.ofList kind, String.ofList value, ?_, ?_, ?_, ?_⟩
        · apply String.ext
          rw [chars, String.toList_append, String.toList_append]
          simp
        · rw [String.toList_ofList]
          intro member
          simpa using List.mem_takeWhile_imp member
        · rw [Ne, ← String.toList_inj, String.toList_ofList]
          exact accepted.1
        · rw [Ne, ← String.toList_inj, String.toList_ofList]
          exact accepted.2
    · cases accepted
  · rintro ⟨kind, value, rfl, noColon, kindNamed, valueNamed⟩
    have chars : (kind ++ ":" ++ value).toList = kind.toList ++ ':' :: value.toList := by
      simp
    have kept : (kind.toList ++ ':' :: value.toList).takeWhile (· ≠ ':') = kind.toList := by
      rw [List.takeWhile_append_of_pos (colonFree _ noColon)]
      simp
    have dropped : (kind.toList ++ ':' :: value.toList).dropWhile (· ≠ ':') =
        ':' :: value.toList := by
      rw [List.dropWhile_append_of_pos (colonFree _ noColon)]
      simp
    simp only [chars, kept, dropped, Bool.and_eq_true, Bool.not_eq_true',
      List.isEmpty_eq_false_iff, Ne, String.toList_eq_nil_iff]
    exact ⟨kindNamed, valueNamed⟩

theorem permissionUsable_iff {registry : Registry} {internal : Bool} {name : String} :
    registry.PermissionUsable internal name ↔ ∃ permission, registry.permission? name = some permission ∧
      InternalAllowed internal permission.internal := by
  unfold Registry.PermissionUsable
  simp only [internalAllowed_iff]

theorem roleUsable_iff {config : Config} {registry : Registry} {internal : Bool} {name : String} :
    RoleUsable registry internal (config.customRoles.map (·.name)) name ↔
      config.RoleAllowed registry internal name := by
  unfold RoleUsable Registry.BuiltinUsable Config.RoleAllowed
  simp only [internalAllowed_iff]
  constructor
  · rintro (custom | ⟨-, builtin⟩)
    · exact Or.inl custom
    · exact Or.inr builtin
  · rintro (custom | ⟨prefixed, known⟩)
    · exact Or.inl custom
    · exact Or.inr ⟨not_custom_of_builtin prefixed, prefixed, known⟩

/-- A realm's parent rules, checked parent by parent, are the three rules on its parent list. -/
theorem realmParents_iff {realm : Realm} {names : List String} :
    (∀ parent ∈ realm.parents,
        parent ≠ realm.name ∧ realm.name ≠ rootRealm ∧ (parent = rootRealm ∨ parent ∈ names)) ↔
      realm.name ∉ realm.parents ∧ (realm.name = rootRealm → realm.parents = []) ∧
        ∀ parent ∈ realm.parents, parent = rootRealm ∨ parent ∈ names := by
  constructor
  · intro each
    refine ⟨fun listed => (each _ listed).1 rfl, fun isRoot => ?_, fun parent listed =>
      (each parent listed).2.2⟩
    rw [List.eq_nil_iff_forall_not_mem]
    exact fun parent listed => (each parent listed).2.1 isRoot
  · rintro ⟨notSelf, rootAlone, declared⟩ parent listed
    refine ⟨fun same => notSelf (same ▸ listed), fun isRoot => ?_, declared parent listed⟩
    rw [rootAlone isRoot] at listed
    cases listed

theorem customRoleInheritance_parentOf_eq {config : Config}
    (distinct : (config.customRoles.map (·.name)).Nodup) :
    (customRoleInheritance config.customRoles).ParentOf = config.CustomExtends := by
  funext parent child
  exact propext (customRoleInheritance_parentOf_iff distinct)

theorem realmInheritance_parentOf_eq {config : Config}
    (distinct : (config.realms.map (·.name)).Nodup) :
    (realmInheritance config.realms).ParentOf = config.RealmExtends := by
  funext parent child
  exact propext (realmInheritance_parentOf_iff distinct)

/-! ### Acceptance -/

section Acceptance

variable {config : Config} {registry : Registry} {internal : Bool}

theorem Config.Valid.wellFormed (valid : config.Valid registry internal) :
    config.WellFormed registry internal where
  customPrefixed := valid.customPrefixed
  customDistinct := valid.customNames
  permissionsKnown role member name listed :=
    permissionUsable_iff.mp ((valid.customRoles role member).1 name listed)
  customParents role member parent listed :=
    roleUsable_iff.mp ((valid.customRoles role member).2 parent listed)
  customAcyclic := by
    rw [← customRoleInheritance_parentOf_eq valid.customNames]
    exact valid.customAcyclic
  realmNames realm member := realmNameValid_iff.mp (valid.realmNames realm member)
  realmDistinct := valid.realmNamesDistinct
  notSelfExtending realm member := (realmParents_iff.mp (valid.realms realm member).parents).1
  rootExtendsNothing realm member := (realmParents_iff.mp (valid.realms realm member).parents).2.1
  parentsDeclared realm member := (realmParents_iff.mp (valid.realms realm member).parents).2.2
  servicesNamed realm member := (valid.realms realm member).services
  bindingRoles realm member binding listed :=
    roleUsable_iff.mp ((valid.realms realm member).bindings binding listed).role
  principals realm member binding listed principal principalListed :=
    isPrincipal_iff.mp (((valid.realms realm member).bindings binding listed).principals principal
      principalListed)
  conditions realm member binding listed :=
    ((valid.realms realm member).bindings binding listed).conditions
  realmsAcyclic := by
    rw [← realmInheritance_parentOf_eq valid.realmNamesDistinct]
    exact valid.realmsAcyclic

theorem Config.WellFormed.valid (wellFormed : config.WellFormed registry internal) :
    config.Valid registry internal where
  customPrefixed := wellFormed.customPrefixed
  customNames := wellFormed.customDistinct
  customRoles role member :=
    ⟨fun name listed => permissionUsable_iff.mpr (wellFormed.permissionsKnown role member name listed),
      fun parent listed => roleUsable_iff.mpr (wellFormed.customParents role member parent listed)⟩
  customAcyclic := by
    rw [customRoleInheritance_parentOf_eq wellFormed.customDistinct]
    exact wellFormed.customAcyclic
  realmNames realm member := realmNameValid_iff.mpr (wellFormed.realmNames realm member)
  realmNamesDistinct := wellFormed.realmDistinct
  realms realm member :=
    { parents := realmParents_iff.mpr ⟨wellFormed.notSelfExtending realm member,
        wellFormed.rootExtendsNothing realm member, wellFormed.parentsDeclared realm member⟩
      services := wellFormed.servicesNamed realm member
      bindings binding listed :=
        { role := roleUsable_iff.mpr (wellFormed.bindingRoles realm member binding listed)
          principals principal principalListed :=
            isPrincipal_iff.mpr (wellFormed.principals realm member binding listed principal
              principalListed)
          conditions := wellFormed.conditions realm member binding listed } }
  realmsAcyclic := by
    rw [realmInheritance_parentOf_eq wellFormed.realmDistinct]
    exact wellFormed.realmsAcyclic

end Acceptance

/-- Validation accepts a configuration exactly when it is well formed. -/
theorem Config.validate_accepts_exactly_wellFormed (config : Config) (registry : Registry)
    (internal : Bool) :
    config.validate registry internal = .ok () ↔ config.WellFormed registry internal := by
  rw [Config.validate_eq_ok_iff]
  exact ⟨Config.Valid.wellFormed, Config.WellFormed.valid⟩

end RealmAccess
