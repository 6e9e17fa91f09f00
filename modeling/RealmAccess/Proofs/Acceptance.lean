import Mathlib.Data.List.Nodup
import RealmAccess.Validation
import RealmAccess.Proofs.Acyclic
import RealmAccess.Proofs.Memo
/-!
# What validation accepts

`Config.validate` runs its checks in order and stops at the first refusal, so it accepts a
configuration exactly when the configuration passes every check. Each check is read as a
predicate on what it looks at, whatever the path it would report, and the whole validation as
one predicate, `Config.Valid` (`Config.validate_eq_ok_iff`): custom role names are prefixed and
distinct, their permissions and parents usable, and they do not inherit in a cycle; realm
names are valid and distinct, each realm's parents, services and bindings are acceptable, and
realms do not inherit in a cycle.

Expansion needs less of a configuration (`Config.Checked`): every realm extended is declared,
every role named is known, every condition restricts something, and there is no cycle.
-/

namespace RealmAccess

section Each

variable {α : Type}

theorem forM_eq_ok_iff {ε : Type} {items : List α} {check : α → Except ε Unit} :
    items.forM check = .ok () ↔ ∀ item ∈ items, check item = .ok () := by
  induction items with
  | nil => exact ⟨fun _ _ member => (nomatch member), fun _ => rfl⟩
  | cons item more ih =>
      have unfolded : (item :: more).forM check = (check item >>= fun _ => more.forM check) := rfl
      rw [unfolded, bind_eq_ok_iff, List.forall_mem_cons, ← ih]
      constructor
      · rintro ⟨⟨⟩, first, rest⟩
        exact ⟨first, rest⟩
      · rintro ⟨first, rest⟩
        exact ⟨(), first, rest⟩

/-- A check run on every element with its position passes for each element. -/
theorem eachIndexed_eq_ok_iff {items : List α} {check : Nat → α → Except Violation Unit} :
    eachIndexed items check = .ok () ↔ ∀ i item, items[i]? = some item → check i item = .ok () := by
  unfold eachIndexed
  rw [forM_eq_ok_iff]
  constructor
  · intro each i item found
    exact each (item, i) (List.mem_zipIdx_iff_getElem?.mpr found)
  · rintro each ⟨item, i⟩ member
    exact each i item (List.mem_zipIdx_iff_getElem?.mp member)

theorem nodup_map_iff_fresh {β : Type} {f : α → β} {items : List α} :
    (items.map f).Nodup ↔
      ∀ i item, items[i]? = some item → ∀ earlier ∈ items.take i, f earlier ≠ f item := by
  unfold List.Nodup
  rw [List.pairwise_map, List.pairwise_iff_getElem]
  constructor
  · intro distinct i item found earlier member
    obtain ⟨k, kBound, rfl⟩ := List.mem_take_iff_getElem.mp member
    obtain ⟨iInRange, rfl⟩ := List.getElem?_eq_some_iff.mp found
    exact distinct k i (Nat.lt_min.mp kBound).2 iInRange (Nat.lt_min.mp kBound).1
  · intro fresh i j iInRange jInRange before
    have earlier : items[i] ∈ items.take j :=
      List.mem_take_iff_getElem.mpr ⟨i, Nat.lt_min.mpr ⟨before, iInRange⟩, rfl⟩
    exact fresh j items[j] (List.getElem?_eq_getElem jInRange) items[i] earlier

theorem forall_getElem?_iff {items : List α} {holds : α → Prop} :
    (∀ (i : Nat) item, items[i]? = some item → holds item) ↔ ∀ item ∈ items, holds item := by
  constructor
  · intro each item member
    obtain ⟨i, inRange, rfl⟩ := List.getElem_of_mem member
    exact each i _ (List.getElem?_eq_getElem inRange)
  · intro each i item found
    exact each item (List.mem_of_getElem? found)

/-- A pass that checks each element, and that no element before it has its key, passes when
every element is good and the keys are distinct. -/
theorem forall_fresh_iff {β : Type} {f : α → β} {holds : α → Prop} {items : List α} :
    (∀ (i : Nat) item, items[i]? = some item →
        holds item ∧ ∀ earlier ∈ items.take i, f earlier ≠ f item) ↔
      (∀ item ∈ items, holds item) ∧ (items.map f).Nodup := by
  rw [nodup_map_iff_fresh, ← forall_getElem?_iff]
  constructor
  · intro each
    exact ⟨fun i item found => (each i item found).1, fun i item found => (each i item found).2⟩
  · rintro ⟨each, fresh⟩ i item found
    exact ⟨each i item found, fresh i item found⟩

theorem eachIndexed_eq_ok_iff_forall {items : List α} {check : Nat → α → Except Violation Unit}
    {holds : α → Prop} (checks : ∀ i item, check i item = .ok () ↔ holds item) :
    eachIndexed items check = .ok () ↔ ∀ item ∈ items, holds item := by
  rw [eachIndexed_eq_ok_iff, ← forall_getElem?_iff]
  simp only [checks]

end Each

/-! ### Refusals -/

theorem bind_unit_eq_ok_iff {ε : Type} {first : Except ε Unit} {rest : Unit → Except ε Unit} :
    first >>= rest = .ok () ↔ first = .ok () ∧ rest () = .ok () := by
  cases first with
  | error e => simp [bind, Except.bind]
  | ok u => simp [bind, Except.bind]

@[simp] theorem pure_eq_ok {ε α : Type} (a : α) : (pure a : Except ε α) = .ok a := rfl

@[simp] theorem refuse_ne_ok {path : Path} {issue : Issue} : refuse path issue ≠ .ok () := by
  intro refused
  cases refused

@[simp] theorem refuse_bind {path : Path} {issue : Issue} {rest : Unit → Except Violation Unit} :
    refuse path issue >>= rest = refuse path issue := rfl

theorem ite_refuse_eq_ok_iff {condition : Prop} [Decidable condition] {path : Path} {issue : Issue}
    {rest : Except Violation Unit} :
    (if condition then refuse path issue else rest) = .ok () ↔ ¬ condition ∧ rest = .ok () := by
  by_cases holds : condition
  · simp [holds, refuse]
  · simp [holds]

theorem internal_check_eq_ok_iff {flag internal : Bool} {path : Path} {issue : Issue} :
    (if (flag && !internal) = true then refuse path issue else .ok ()) = .ok () ↔
      (flag = true → internal = true) := by
  cases flag <;> cases internal <;> simp [refuse]


/-! ### What each check accepts -/

/-- A permission a custom role may list: the registry knows it, and it is internal only where
internal entries are allowed. -/
def Registry.PermissionUsable (registry : Registry) (internal : Bool) (name : String) : Prop :=
  ∃ permission, registry.permission? name = some permission ∧
    (permission.internal = true → internal = true)

/-- A built-in role a configuration may name: prefixed, known to the registry, and internal
only where internal entries are allowed. -/
def Registry.BuiltinUsable (registry : Registry) (internal : Bool) (name : String) : Prop :=
  name.startsWith builtinRolePrefix = true ∧
    ∃ role, registry.role? name = some role ∧ (role.internal = true → internal = true)

/-- A role a configuration may name: a declared custom role, or else a usable built-in role. -/
def RoleUsable (registry : Registry) (internal : Bool) (customRoles : List String)
    (name : String) : Prop :=
  (name.startsWith customRolePrefix = true ∧ name ∈ customRoles) ∨
    (name.startsWith customRolePrefix = false ∧ registry.BuiltinUsable internal name)

/-- A condition restricting a named, allowed attribute to some values. -/
def Condition.Valid (registry : Registry) (condition : Condition) : Prop :=
  ∃ restriction, condition.restrict = some restriction ∧ restriction.attributeName ≠ "" ∧
    registry.allowsAttribute restriction.attributeName = true ∧ restriction.values ≠ []

/-- A binding of a usable role to well-formed principals under valid conditions. -/
structure Binding.Valid (registry : Registry) (internal : Bool) (customRoles : List String)
    (binding : Binding) : Prop where
  role : RoleUsable registry internal customRoles binding.role
  principals : ∀ principal ∈ binding.principals, isPrincipal principal = true
  conditions : ∀ condition ∈ binding.conditions, condition.Valid registry

/-- A realm, among realms named `names`: it extends neither itself nor anything when it is the
root, only the root or declared realms; its services are named; its bindings are valid. -/
structure Realm.Valid (registry : Registry) (internal : Bool) (names customRoles : List String)
    (realm : Realm) : Prop where
  parents : ∀ parent ∈ realm.parents,
    parent ≠ realm.name ∧ realm.name ≠ rootRealm ∧ (parent = rootRealm ∨ parent ∈ names)
  services : ∀ service ∈ realm.enforceInService, service ≠ ""
  bindings : ∀ binding ∈ realm.bindings, binding.Valid registry internal customRoles

/-- A realm name: one of the two special names, or an ordinary name not starting with `@`. -/
def RealmNameValid (name : String) : Prop :=
  name = rootRealm ∨ name = legacyRealm ∨
    (name.startsWith "@" = false ∧ isRealmName name = true)

variable {registry : Registry} {internal : Bool}

theorem checkPermission_eq_ok_iff (path : Path) (name : String) :
    checkPermission registry internal path name = .ok () ↔
      registry.PermissionUsable internal name := by
  unfold checkPermission Registry.PermissionUsable
  cases found : registry.permission? name with
  | none => simp [refuse]
  | some permission =>
      simp only [Option.some.injEq, exists_eq_left']
      exact internal_check_eq_ok_iff

theorem checkBuiltinRole_eq_ok_iff (path : Path) (name : String) :
    checkBuiltinRole registry internal path name = .ok () ↔
      registry.BuiltinUsable internal name := by
  unfold checkBuiltinRole Registry.BuiltinUsable
  cases prefixed : name.startsWith builtinRolePrefix
  · simp [refuse]
  · cases found : registry.role? name with
    | none => simp [refuse]
    | some role =>
        simp only [Option.some.injEq, exists_eq_left', Bool.not_true, true_and]
        exact internal_check_eq_ok_iff

theorem checkRole_eq_ok_iff (path : Path) {customRoles : List String} (name : String) :
    checkRole registry internal customRoles path name = .ok () ↔
      RoleUsable registry internal customRoles name := by
  unfold checkRole RoleUsable
  cases custom : name.startsWith customRolePrefix
  · simp [checkBuiltinRole_eq_ok_iff path name]
  · by_cases declared : name ∈ customRoles
    · simp [declared]
    · simp [declared, refuse]

theorem checkCondition_eq_ok_iff (path : Path) (condition : Condition) :
    checkCondition registry path condition = .ok () ↔ condition.Valid registry := by
  unfold checkCondition Condition.Valid
  cases restricted : condition.restrict with
  | none => simp [refuse]
  | some restriction =>
      simp only [ite_refuse_eq_ok_iff, Option.some.injEq, exists_eq_left']
      simp

theorem checkBinding_eq_ok_iff (path : Path) {customRoles : List String} (binding : Binding) :
    checkBinding registry internal customRoles path binding = .ok () ↔
      binding.Valid registry internal customRoles := by
  have principalChecks : ∀ (k : Nat) (principal : String),
      (if isPrincipal principal then .ok ()
        else refuse (path ++ [.field "principals", .index k]) (.malformedPrincipal principal)) =
          .ok () ↔ isPrincipal principal = true := by
    intro k principal
    cases isPrincipal principal <;> simp
  unfold checkBinding
  rw [bind_unit_eq_ok_iff, bind_unit_eq_ok_iff, checkRole_eq_ok_iff _ binding.role,
    eachIndexed_eq_ok_iff_forall principalChecks,
    eachIndexed_eq_ok_iff_forall fun k condition =>
      checkCondition_eq_ok_iff (path ++ [PathStep.field "conditions", PathStep.index k]) condition]
  constructor
  · rintro ⟨role, principals, conditions⟩
    exact ⟨role, principals, conditions⟩
  · rintro ⟨role, principals, conditions⟩
    exact ⟨role, principals, conditions⟩

theorem checkRealm_eq_ok_iff (path : Path) {names customRoles : List String} (realm : Realm) :
    checkRealm registry internal names customRoles path realm = .ok () ↔
      realm.Valid registry internal names customRoles := by
  have parentChecks : ∀ (j : Nat) (parent : String),
      (do
        let parentPath := path ++ [.field "extends", .index j]
        if parent = realm.name then refuse parentPath .realmExtendsItself
        if realm.name = rootRealm then refuse parentPath .rootRealmExtends
        if parent ≠ rootRealm && !names.contains parent then
          refuse parentPath (.realmUndefined parent) : Except Violation Unit) = .ok () ↔
        parent ≠ realm.name ∧ realm.name ≠ rootRealm ∧ (parent = rootRealm ∨ parent ∈ names) := by
    intro j parent
    simp only [refuse_bind, ite_refuse_eq_ok_iff]
    by_cases toRoot : parent = rootRealm <;> simp [toRoot]
  have serviceChecks : ∀ (j : Nat) (service : String),
      (if service.isEmpty then refuse (path ++ [.field "enforceInService", .index j]) .emptyServiceName
        else .ok ()) = .ok () ↔ service ≠ "" := by
    intro j service
    by_cases named : service = ""
    · simp [named]
    · simp [named]
  unfold checkRealm
  rw [bind_unit_eq_ok_iff, bind_unit_eq_ok_iff, eachIndexed_eq_ok_iff_forall parentChecks,
    eachIndexed_eq_ok_iff_forall serviceChecks,
    eachIndexed_eq_ok_iff_forall fun j binding =>
      checkBinding_eq_ok_iff (path ++ [PathStep.field "bindings", PathStep.index j]) binding]
  constructor
  · rintro ⟨parents, services, bindings⟩
    exact ⟨parents, services, bindings⟩
  · rintro ⟨parents, services, bindings⟩
    exact ⟨parents, services, bindings⟩

theorem checkRealmName_eq_ok_iff (path : Path) (name : String) :
    checkRealmName path name = .ok () ↔ RealmNameValid name := by
  unfold checkRealmName RealmNameValid
  by_cases root : name = rootRealm
  · simp [root]
  by_cases legacy : name = legacyRealm
  · simp [legacy]
  simp [root, legacy, ite_refuse_eq_ok_iff]

theorem checkCustomRoles_eq_ok_iff {roles : List CustomRole} :
    checkCustomRoles registry internal roles = .ok () ↔
      ((∀ role ∈ roles, role.name.startsWith customRolePrefix = true) ∧
        (roles.map (·.name)).Nodup) ∧
      (∀ role ∈ roles,
        (∀ permission ∈ role.permissions, registry.PermissionUsable internal permission) ∧
        ∀ parent ∈ role.parents, RoleUsable registry internal (roles.map (·.name)) parent) ∧
      ∀ name, ¬ Relation.TransGen (customRoleInheritance roles).ParentOf name name := by
  have listed : ∀ entry ∈ customRoleInheritance roles, entry.1 ∈ roles.map (·.name) := by
    intro entry member
    obtain ⟨role, roleMember, rfl⟩ := List.mem_map.mp member
    exact List.mem_map_of_mem roleMember
  unfold checkCustomRoles
  rw [← Inheritance.findCycle_eq_none_iff listed, ← forall_fresh_iff, bind_unit_eq_ok_iff,
    bind_unit_eq_ok_iff]
  refine and_congr ?_ (and_congr ?_ ?_)
  · -- the first pass: each name prefixed, and new
    rw [eachIndexed_eq_ok_iff]
    refine forall_congr' fun i => forall_congr' fun role => imp_congr_right fun _ => ?_
    simp only [refuse_bind, ite_refuse_eq_ok_iff]
    simp
  · rw [eachIndexed_eq_ok_iff, ← forall_getElem?_iff]
    refine forall_congr' fun i => forall_congr' fun role => imp_congr_right fun _ => ?_
    dsimp only
    rw [bind_unit_eq_ok_iff,
      eachIndexed_eq_ok_iff_forall fun j name => checkPermission_eq_ok_iff _ name,
      eachIndexed_eq_ok_iff_forall fun j name => checkRole_eq_ok_iff _ name]
  · cases (customRoleInheritance roles).findCycle (roles.map (·.name)) <;> simp

theorem checkRealms_eq_ok_iff {config : Config} :
    checkRealms registry internal config = .ok () ↔
      ((∀ realm ∈ config.realms, RealmNameValid realm.name) ∧
        (config.realms.map (·.name)).Nodup) ∧
      (∀ realm ∈ config.realms, realm.Valid registry internal (config.realms.map (·.name))
        (config.customRoles.map (·.name))) ∧
      ∀ name, ¬ Relation.TransGen (realmInheritance config.realms).ParentOf name name := by
  have listed : ∀ entry ∈ realmInheritance config.realms, entry.1 ∈ config.realms.map (·.name) := by
    intro entry member
    obtain ⟨realm, realmMember, rfl⟩ := List.mem_map.mp member
    exact List.mem_map_of_mem realmMember
  unfold checkRealms
  rw [← Inheritance.findCycle_eq_none_iff listed, ← forall_fresh_iff, bind_unit_eq_ok_iff,
    bind_unit_eq_ok_iff]
  refine and_congr ?_ (and_congr ?_ ?_)
  · -- the first pass: each name valid, and new
    rw [eachIndexed_eq_ok_iff]
    refine forall_congr' fun i => forall_congr' fun realm => imp_congr_right fun _ => ?_
    dsimp only
    rw [bind_unit_eq_ok_iff, checkRealmName_eq_ok_iff, ite_refuse_eq_ok_iff]
    simp
  · rw [eachIndexed_eq_ok_iff_forall fun i realm => checkRealm_eq_ok_iff _ realm]
  · cases (realmInheritance config.realms).findCycle (config.realms.map (·.name)) <;> simp

/-- A configuration that validation accepts. -/
structure Config.Valid (config : Config) (registry : Registry) (internal : Bool) : Prop where
  customPrefixed : ∀ role ∈ config.customRoles, role.name.startsWith customRolePrefix = true
  customNames : (config.customRoles.map (·.name)).Nodup
  customRoles : ∀ role ∈ config.customRoles,
    (∀ permission ∈ role.permissions, registry.PermissionUsable internal permission) ∧
    ∀ parent ∈ role.parents, RoleUsable registry internal (config.customRoles.map (·.name)) parent
  customAcyclic :
    ∀ name, ¬ Relation.TransGen (customRoleInheritance config.customRoles).ParentOf name name
  realmNames : ∀ realm ∈ config.realms, RealmNameValid realm.name
  realmNamesDistinct : (config.realms.map (·.name)).Nodup
  realms : ∀ realm ∈ config.realms,
    realm.Valid registry internal (config.realms.map (·.name)) (config.customRoles.map (·.name))
  realmsAcyclic : ∀ name, ¬ Relation.TransGen (realmInheritance config.realms).ParentOf name name

theorem Config.validate_eq_ok_iff {config : Config} :
    config.validate registry internal = .ok () ↔ config.Valid registry internal := by
  unfold Config.validate
  rw [bind_unit_eq_ok_iff, checkCustomRoles_eq_ok_iff, checkRealms_eq_ok_iff]
  constructor
  · rintro ⟨⟨⟨prefixed, customNames⟩, roles, customAcyclic⟩, ⟨realmNames, distinct⟩, realms,
      realmsAcyclic⟩
    exact ⟨prefixed, customNames, roles, customAcyclic, realmNames, distinct, realms, realmsAcyclic⟩
  · rintro ⟨prefixed, customNames, roles, customAcyclic, realmNames, distinct, realms,
      realmsAcyclic⟩
    exact ⟨⟨⟨prefixed, customNames⟩, roles, customAcyclic⟩, ⟨realmNames, distinct⟩, realms,
      realmsAcyclic⟩

/-! ### What expansion needs -/

/-- A role a configuration may name: a declared custom role, or a built-in role the registry
knows. -/
def RoleKnown (registry : Registry) (customRoles : List String) (name : String) : Prop :=
  (name.startsWith customRolePrefix ∧ name ∈ customRoles) ∨
    (name.startsWith builtinRolePrefix ∧ (registry.role? name).isSome)

theorem RoleUsable.known {customRoles : List String} {name : String}
    (usable : RoleUsable registry internal customRoles name) : RoleKnown registry customRoles name := by
  rcases usable with ⟨custom, declared⟩ | ⟨-, builtin, role, found, -⟩
  · exact Or.inl ⟨custom, declared⟩
  · exact Or.inr ⟨builtin, by rw [found]; rfl⟩

theorem Condition.Valid.restricted {condition : Condition} (valid : condition.Valid registry) :
    condition.restrict.isSome := by
  obtain ⟨restriction, restricted, -⟩ := valid
  rw [restricted]
  rfl

/-- What a checked configuration guarantees the expander. -/
structure Config.Checked (config : Config) (registry : Registry) : Prop where
  realmNames : (config.realms.map (·.name)).Nodup
  rootExtendsNothing : ∀ realm ∈ config.realms, realm.name = rootRealm → realm.parents = []
  parentsDeclared : ∀ realm ∈ config.realms, ∀ parent ∈ realm.parents,
    parent = rootRealm ∨ parent ∈ config.realms.map (·.name)
  bindingRoles : ∀ realm ∈ config.realms, ∀ binding ∈ realm.bindings,
    RoleKnown registry (config.customRoles.map (·.name)) binding.role
  restricted : ∀ realm ∈ config.realms, ∀ binding ∈ realm.bindings,
    ∀ condition ∈ binding.conditions, condition.restrict.isSome
  customPrefixed : ∀ role ∈ config.customRoles, role.name.startsWith customRolePrefix
  customNames : (config.customRoles.map (·.name)).Nodup
  customParents : ∀ role ∈ config.customRoles, ∀ parent ∈ role.parents,
    RoleKnown registry (config.customRoles.map (·.name)) parent
  customAcyclic :
    (customRoleInheritance config.customRoles).findCycle (config.customRoles.map (·.name)) = none
  realmsAcyclic : (realmInheritance config.realms).findCycle (config.realms.map (·.name)) = none

theorem Config.Valid.checked {config : Config} (valid : config.Valid registry internal) :
    config.Checked registry where
  realmNames := valid.realmNamesDistinct
  rootExtendsNothing realm member isRoot := by
    rw [List.eq_nil_iff_forall_not_mem]
    intro parent listed
    exact ((valid.realms realm member).parents parent listed).2.1 isRoot
  parentsDeclared realm member parent listed := ((valid.realms realm member).parents parent listed).2.2
  bindingRoles realm member binding listed :=
    ((valid.realms realm member).bindings binding listed).role.known
  restricted realm member binding listed condition conditionListed :=
    (((valid.realms realm member).bindings binding listed).conditions condition conditionListed).restricted
  customPrefixed := valid.customPrefixed
  customNames := valid.customNames
  customParents role member parent listed := ((valid.customRoles role member).2 parent listed).known
  customAcyclic := Inheritance.findCycleFrom_eq_none valid.customAcyclic _ []
  realmsAcyclic := Inheritance.findCycleFrom_eq_none valid.realmsAcyclic _ []

theorem Config.checked_of_validate {config : Config} (valid : config.validate registry internal = .ok ()) :
    config.Checked registry :=
  (Config.validate_eq_ok_iff.mp valid).checked

end RealmAccess
