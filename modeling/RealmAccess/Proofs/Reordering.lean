import Mathlib.Data.List.Perm.Basic
import RealmAccess.Proofs.Acceptance
import RealmAccess.Proofs.Records
/-!
# Declarations in another order

A configuration declares its realms and custom roles in lists, and each realm, binding,
condition and custom role holds lists of its own. `Config.Reorders config config'` says that
`config'` declares the same in another order: its realms and custom roles are those of `config`
permuted, each matched with one of the same name whose inner lists have the same members,
repeats allowed (`Realm.SameAs`, `Binding.SameAs`, `CustomRole.SameAs`).

Validation, role resolution and the walks look at these lists only through their members. So a
reordered configuration passes validation when the original does (`Config.Valid.reorder`), its
roles grant the same permissions (`Config.Reorders.grants_iff`), its realms have the same direct
grants and members (`Config.Reorders.directGrants_eq`, `Config.Reorders.directMembers_eq`), and
each working realm is enforced by the same services (`Config.Reorders.servicesOf_iff`).
-/

namespace RealmAccess

section Lists

variable {α β : Type}

/-- Two lists with the same members, each perhaps repeated. -/
def SameMembers (xs ys : List α) : Prop :=
  ∀ x, x ∈ xs ↔ x ∈ ys

/-- Every element of each list is related to some element of the other. -/
def Alike (related : α → β → Prop) (xs : List α) (ys : List β) : Prop :=
  (∀ x ∈ xs, ∃ y ∈ ys, related x y) ∧ ∀ y ∈ ys, ∃ x ∈ xs, related x y

/-- `ys` is `xs` in another order, each element replaced by one related to it. -/
def Rearranged (related : α → β → Prop) (xs : List α) (ys : List β) : Prop :=
  ∃ zs, xs.Perm zs ∧ List.Forall₂ related zs ys

instance [DecidableEq α] (xs ys : List α) : Decidable (SameMembers xs ys) :=
  decidable_of_iff (xs ⊆ ys ∧ ys ⊆ xs)
    ⟨fun ⟨forward, backward⟩ x => ⟨@forward x, @backward x⟩,
      fun same => ⟨fun x member => (same x).mp member, fun x member => (same x).mpr member⟩⟩

instance instDecidableAlike {related : α → β → Prop} [DecidableRel related] (xs : List α)
    (ys : List β) : Decidable (Alike related xs ys) :=
  inferInstanceAs (Decidable ((∀ x ∈ xs, ∃ y ∈ ys, related x y) ∧ ∀ y ∈ ys, ∃ x ∈ xs, related x y))

instance instDecidableOptionRel {related : α → β → Prop} [DecidableRel related] :
    ∀ (x : Option α) (y : Option β), Decidable (Option.Rel related x y)
  | some a, some b => decidable_of_iff (related a b)
      ⟨Option.Rel.some, fun relatedSome => by cases relatedSome; assumption⟩
  | none, none => isTrue .none
  | some _, none => isFalse fun relatedSome => nomatch relatedSome
  | none, some _ => isFalse fun relatedSome => nomatch relatedSome

theorem SameMembers.refl (xs : List α) : SameMembers xs xs :=
  fun _ => Iff.rfl

theorem SameMembers.symm {xs ys : List α} (same : SameMembers xs ys) : SameMembers ys xs :=
  fun x => (same x).symm

theorem Alike.refl {related : α → α → Prop} (reflexive : ∀ x, related x x) (xs : List α) :
    Alike related xs xs :=
  ⟨fun x member => ⟨x, member, reflexive x⟩, fun x member => ⟨x, member, reflexive x⟩⟩

theorem Alike.symm {related : α → β → Prop} {related' : β → α → Prop} {xs : List α} {ys : List β}
    (alike : Alike related xs ys) (flipped : ∀ x y, related x y → related' y x) :
    Alike related' ys xs := by
  constructor
  · intro y member
    obtain ⟨x, xMember, relatedXY⟩ := alike.2 y member
    exact ⟨x, xMember, flipped x y relatedXY⟩
  · intro x member
    obtain ⟨y, yMember, relatedXY⟩ := alike.1 x member
    exact ⟨y, yMember, flipped x y relatedXY⟩

theorem Alike.append {related : α → β → Prop} {xs xs' : List α} {ys ys' : List β}
    (first : Alike related xs ys) (second : Alike related xs' ys') :
    Alike related (xs ++ xs') (ys ++ ys') := by
  constructor
  · intro x member
    rcases List.mem_append.mp member with inFirst | inSecond
    · obtain ⟨y, yMember, relatedXY⟩ := first.1 x inFirst
      exact ⟨y, List.mem_append_left _ yMember, relatedXY⟩
    · obtain ⟨y, yMember, relatedXY⟩ := second.1 x inSecond
      exact ⟨y, List.mem_append_right _ yMember, relatedXY⟩
  · intro y member
    rcases List.mem_append.mp member with inFirst | inSecond
    · obtain ⟨x, xMember, relatedXY⟩ := first.2 y inFirst
      exact ⟨x, List.mem_append_left _ xMember, relatedXY⟩
    · obtain ⟨x, xMember, relatedXY⟩ := second.2 y inSecond
      exact ⟨x, List.mem_append_right _ xMember, relatedXY⟩

theorem Alike.of_sameMembers {related : α → α → Prop} (reflexive : ∀ x, related x x)
    {xs ys : List α} (same : SameMembers xs ys) : Alike related xs ys :=
  ⟨fun x member => ⟨x, (same x).mp member, reflexive x⟩,
    fun y member => ⟨y, (same y).mpr member, reflexive y⟩⟩

variable {related : α → β → Prop} {xs : List α} {ys : List β}

theorem Rearranged.symm {related' : β → α → Prop} (rearranged : Rearranged related xs ys)
    (flipped : ∀ x y, related x y → related' y x) : Rearranged related' ys xs := by
  obtain ⟨zs, shuffled, matched⟩ := rearranged
  -- move the permutation to the other side of the matching
  obtain ⟨us, matchedFirst, shuffledAfter⟩ := List.perm_comp_forall₂ shuffled matched
  exact ⟨us, shuffledAfter.symm, List.Forall₂.flip (matchedFirst.imp fun x y relatedXY =>
    flipped x y relatedXY)⟩

theorem Rearranged.exists_of_mem (rearranged : Rearranged related xs ys) {x : α} (member : x ∈ xs) :
    ∃ y ∈ ys, related x y := by
  obtain ⟨zs, shuffled, matched⟩ := rearranged
  exact exists_of_forall₂_left matched (shuffled.mem_iff.mp member)

theorem Rearranged.map_perm {γ : Type} {f : α → γ} {g : β → γ}
    (rearranged : Rearranged related xs ys) (same : ∀ x y, related x y → f x = g y) :
    (xs.map f).Perm (ys.map g) := by
  obtain ⟨zs, shuffled, matched⟩ := rearranged
  rw [← map_eq_of_forall₂ matched same]
  exact shuffled.map f

end Lists

/-! ### The same declaration -/

/-- The same restriction: one attribute, the same values. -/
structure Restriction.SameAs (restriction restriction' : Restriction) : Prop where
  attributeName : restriction.attributeName = restriction'.attributeName
  values : SameMembers restriction.values restriction'.values

/-- The same condition: both empty, or restricting alike. -/
def Condition.SameAs (condition condition' : Condition) : Prop :=
  Option.Rel Restriction.SameAs condition.restrict condition'.restrict

/-- The same binding: one role, the same principals, alike conditions. -/
structure Binding.SameAs (binding binding' : Binding) : Prop where
  role : binding.role = binding'.role
  principals : SameMembers binding.principals binding'.principals
  conditions : Alike Condition.SameAs binding.conditions binding'.conditions

/-- The same realm: one name, the same parents and services, alike bindings. -/
structure Realm.SameAs (realm realm' : Realm) : Prop where
  name : realm.name = realm'.name
  parents : SameMembers realm.parents realm'.parents
  bindings : Alike Binding.SameAs realm.bindings realm'.bindings
  services : SameMembers realm.enforceInService realm'.enforceInService

/-- The same custom role: one name, the same parents and permissions. -/
structure CustomRole.SameAs (role role' : CustomRole) : Prop where
  name : role.name = role'.name
  parents : SameMembers role.parents role'.parents
  permissions : SameMembers role.permissions role'.permissions

/-- `config'` declares what `config` declares, in another order. -/
structure Config.Reorders (config config' : Config) : Prop where
  realms : Rearranged Realm.SameAs config.realms config'.realms
  customRoles : Rearranged CustomRole.SameAs config.customRoles config'.customRoles

instance (restriction restriction' : Restriction) : Decidable (restriction.SameAs restriction') :=
  decidable_of_iff (restriction.attributeName = restriction'.attributeName ∧
      SameMembers restriction.values restriction'.values)
    ⟨fun ⟨named, values⟩ => ⟨named, values⟩, fun same => ⟨same.attributeName, same.values⟩⟩

instance (condition condition' : Condition) : Decidable (condition.SameAs condition') :=
  inferInstanceAs (Decidable (Option.Rel Restriction.SameAs condition.restrict condition'.restrict))

instance (binding binding' : Binding) : Decidable (binding.SameAs binding') :=
  decidable_of_iff (binding.role = binding'.role ∧
      SameMembers binding.principals binding'.principals ∧
      Alike Condition.SameAs binding.conditions binding'.conditions)
    ⟨fun ⟨role, principals, conditions⟩ => ⟨role, principals, conditions⟩,
      fun same => ⟨same.role, same.principals, same.conditions⟩⟩

instance (realm realm' : Realm) : Decidable (realm.SameAs realm') :=
  decidable_of_iff (realm.name = realm'.name ∧ SameMembers realm.parents realm'.parents ∧
      Alike Binding.SameAs realm.bindings realm'.bindings ∧
      SameMembers realm.enforceInService realm'.enforceInService)
    ⟨fun ⟨name, parents, bindings, services⟩ => ⟨name, parents, bindings, services⟩,
      fun same => ⟨same.name, same.parents, same.bindings, same.services⟩⟩

instance (role role' : CustomRole) : Decidable (role.SameAs role') :=
  decidable_of_iff (role.name = role'.name ∧ SameMembers role.parents role'.parents ∧
      SameMembers role.permissions role'.permissions)
    ⟨fun ⟨name, parents, permissions⟩ => ⟨name, parents, permissions⟩,
      fun same => ⟨same.name, same.parents, same.permissions⟩⟩

theorem Restriction.SameAs.symm {restriction restriction' : Restriction}
    (same : restriction.SameAs restriction') : restriction'.SameAs restriction :=
  ⟨same.attributeName.symm, same.values.symm⟩

theorem Condition.SameAs.symm {condition condition' : Condition}
    (same : condition.SameAs condition') : condition'.SameAs condition := by
  unfold Condition.SameAs at same ⊢
  generalize condition.restrict = restriction at same ⊢
  generalize condition'.restrict = restriction' at same ⊢
  cases same with
  | some related => exact .some related.symm
  | none => exact .none

theorem Binding.SameAs.symm {binding binding' : Binding} (same : binding.SameAs binding') :
    binding'.SameAs binding :=
  ⟨same.role.symm, same.principals.symm, same.conditions.symm fun _ _ related => related.symm⟩

theorem Realm.SameAs.symm {realm realm' : Realm} (same : realm.SameAs realm') :
    realm'.SameAs realm :=
  ⟨same.name.symm, same.parents.symm, same.bindings.symm fun _ _ related => related.symm,
    same.services.symm⟩

theorem CustomRole.SameAs.symm {role role' : CustomRole} (same : role.SameAs role') :
    role'.SameAs role :=
  ⟨same.name.symm, same.parents.symm, same.permissions.symm⟩

theorem Condition.SameAs.refl (condition : Condition) : condition.SameAs condition := by
  unfold Condition.SameAs
  cases condition.restrict with
  | some restriction => exact .some ⟨rfl, SameMembers.refl _⟩
  | none => exact .none

theorem Binding.SameAs.refl (binding : Binding) : binding.SameAs binding :=
  ⟨rfl, SameMembers.refl _, Alike.refl Condition.SameAs.refl _⟩

theorem Realm.SameAs.refl (realm : Realm) : realm.SameAs realm :=
  ⟨rfl, SameMembers.refl _, Alike.refl Binding.SameAs.refl _, SameMembers.refl _⟩

theorem Config.Reorders.symm {config config' : Config} (reordered : config.Reorders config') :
    config'.Reorders config :=
  ⟨reordered.realms.symm fun _ _ same => same.symm,
    reordered.customRoles.symm fun _ _ same => same.symm⟩

/-! ### Validation -/

theorem customRoleInheritance_parentOf_iff {roles : List CustomRole}
    (distinct : (roles.map (·.name)).Nodup) {parent child : String} :
    (customRoleInheritance roles).ParentOf parent child ↔
      ∃ role ∈ roles, role.name = child ∧ parent ∈ role.parents ∧
        parent.startsWith customRolePrefix = true := by
  unfold customRoleInheritance
  rw [Inheritance.parentOf_iff (by rw [List.map_map]; exact distinct)]
  simp only [List.mem_map, List.mem_filter, exists_exists_and_eq_and]

theorem realmInheritance_parentOf_iff {realms : List Realm}
    (distinct : (realms.map (·.name)).Nodup) {parent child : String} :
    (realmInheritance realms).ParentOf parent child ↔
      ∃ realm ∈ realms, realm.name = child ∧ parent ∈ realm.parents ∧ parent ≠ rootRealm := by
  unfold realmInheritance
  rw [Inheritance.parentOf_iff (by rw [List.map_map]; exact distinct)]
  simp only [List.mem_map, List.mem_filter, exists_exists_and_eq_and, decide_eq_true_eq]

variable {registry : Registry} {internal : Bool}

theorem RoleUsable.of_sameMembers {customRoles customRoles' : List String}
    (sameRoles : SameMembers customRoles customRoles') {name : String}
    (usable : RoleUsable registry internal customRoles name) :
    RoleUsable registry internal customRoles' name := by
  rcases usable with ⟨custom, declared⟩ | builtin
  · exact Or.inl ⟨custom, (sameRoles name).mp declared⟩
  · exact Or.inr builtin

theorem Condition.SameAs.restrict_some {condition condition' : Condition}
    (same : condition.SameAs condition') {restriction : Restriction}
    (restricted : condition.restrict = some restriction) :
    ∃ restriction', condition'.restrict = some restriction' ∧ restriction.SameAs restriction' := by
  unfold Condition.SameAs at same
  rw [restricted] at same
  generalize condition'.restrict = other at same ⊢
  cases same with
  | some related => exact ⟨_, rfl, related⟩

theorem Condition.Valid.of_sameAs {condition condition' : Condition}
    (same : condition.SameAs condition') (valid : condition.Valid registry) :
    condition'.Valid registry := by
  obtain ⟨restriction, restricted, named, allowed, nonempty⟩ := valid
  obtain ⟨restriction', restricted', sameRestriction⟩ := same.restrict_some restricted
  refine ⟨restriction', restricted', ?_, ?_, ?_⟩
  · rw [← sameRestriction.attributeName]
    exact named
  · rw [← sameRestriction.attributeName]
    exact allowed
  · obtain ⟨value, member⟩ := List.exists_mem_of_ne_nil _ nonempty
    exact List.ne_nil_of_mem ((sameRestriction.values value).mp member)

theorem Binding.Valid.of_sameAs {customRoles customRoles' : List String}
    (sameRoles : SameMembers customRoles customRoles') {binding binding' : Binding}
    (same : binding.SameAs binding') (valid : binding.Valid registry internal customRoles) :
    binding'.Valid registry internal customRoles' where
  role := by
    rw [← same.role]
    exact valid.role.of_sameMembers sameRoles
  principals principal listed := valid.principals principal ((same.principals principal).mpr listed)
  conditions condition' listed := by
    obtain ⟨condition, member, related⟩ := same.conditions.2 condition' listed
    exact (valid.conditions condition member).of_sameAs related

theorem Realm.Valid.of_sameAs {names names' customRoles customRoles' : List String}
    (sameNames : SameMembers names names') (sameRoles : SameMembers customRoles customRoles')
    {realm realm' : Realm} (same : realm.SameAs realm')
    (valid : realm.Valid registry internal names customRoles) :
    realm'.Valid registry internal names' customRoles' where
  parents parent listed := by
    obtain ⟨notSelf, notRoot, known⟩ := valid.parents parent ((same.parents parent).mpr listed)
    rw [← same.name]
    exact ⟨notSelf, notRoot, known.imp_right (sameNames parent).mp⟩
  services service listed := valid.services service ((same.services service).mpr listed)
  bindings binding' listed := by
    obtain ⟨binding, member, related⟩ := same.bindings.2 binding' listed
    exact (valid.bindings binding member).of_sameAs sameRoles related

namespace Config.Reorders

variable {config config' : Config} (reordered : config.Reorders config')
include reordered

theorem realmNames_perm : (config.realms.map (·.name)).Perm (config'.realms.map (·.name)) :=
  reordered.realms.map_perm fun _ _ same => same.name

theorem customNames_perm :
    (config.customRoles.map (·.name)).Perm (config'.customRoles.map (·.name)) :=
  reordered.customRoles.map_perm fun _ _ same => same.name

/-- A parent that a reordered custom role lists, the original lists too. -/
theorem customParentOf (distinct : (config.customRoles.map (·.name)).Nodup)
    (distinct' : (config'.customRoles.map (·.name)).Nodup) {parent child : String}
    (listed : (customRoleInheritance config'.customRoles).ParentOf parent child) :
    (customRoleInheritance config.customRoles).ParentOf parent child := by
  obtain ⟨role', member', named, parentListed, prefixed⟩ :=
    (customRoleInheritance_parentOf_iff distinct').mp listed
  obtain ⟨role, member, same⟩ := reordered.symm.customRoles.exists_of_mem member'
  exact (customRoleInheritance_parentOf_iff distinct).mpr
    ⟨role, member, same.name.symm.trans named, (same.parents parent).mp parentListed, prefixed⟩

/-- A parent that a reordered realm lists, the original lists too. -/
theorem realmParentOf (distinct : (config.realms.map (·.name)).Nodup)
    (distinct' : (config'.realms.map (·.name)).Nodup) {parent child : String}
    (listed : (realmInheritance config'.realms).ParentOf parent child) :
    (realmInheritance config.realms).ParentOf parent child := by
  obtain ⟨realm', member', named, parentListed, notRoot⟩ :=
    (realmInheritance_parentOf_iff distinct').mp listed
  obtain ⟨realm, member, same⟩ := reordered.symm.realms.exists_of_mem member'
  exact (realmInheritance_parentOf_iff distinct).mpr
    ⟨realm, member, same.name.symm.trans named, (same.parents parent).mp parentListed, notRoot⟩

end Config.Reorders

/-- Validation accepts a configuration in any order of its declarations. -/
theorem Config.Valid.reorder {config config' : Config} (valid : config.Valid registry internal)
    (reordered : config.Reorders config') : config'.Valid registry internal := by
  have customNames := reordered.customNames_perm
  have realmNames := reordered.realmNames_perm
  have distinctCustom := customNames.nodup_iff.mp valid.customNames
  have distinctRealms := realmNames.nodup_iff.mp valid.realmNamesDistinct
  refine ⟨?customPrefixed, distinctCustom, ?customRoles, ?customAcyclic, ?realmNames,
    distinctRealms, ?realms, ?realmsAcyclic⟩
  case customPrefixed =>
    intro role' member'
    obtain ⟨role, member, same⟩ := reordered.symm.customRoles.exists_of_mem member'
    rw [same.name]
    exact valid.customPrefixed role member
  case customRoles =>
    intro role' member'
    obtain ⟨role, member, same⟩ := reordered.symm.customRoles.exists_of_mem member'
    obtain ⟨permissions, parents⟩ := valid.customRoles role member
    constructor
    · intro permission listed
      exact permissions permission ((same.permissions permission).mp listed)
    · intro parent listed
      exact (parents parent ((same.parents parent).mp listed)).of_sameMembers
        fun _ => customNames.mem_iff
  case customAcyclic =>
    intro name cycle
    exact valid.customAcyclic name (Relation.TransGen.mono (fun _ _ listed =>
      reordered.customParentOf valid.customNames distinctCustom listed) name name cycle)
  case realmNames =>
    intro realm' member'
    obtain ⟨realm, member, same⟩ := reordered.symm.realms.exists_of_mem member'
    rw [same.name]
    exact valid.realmNames realm member
  case realms =>
    intro realm' member'
    obtain ⟨realm, member, same⟩ := reordered.symm.realms.exists_of_mem member'
    exact (valid.realms realm member).of_sameAs (fun _ => realmNames.mem_iff)
      (fun _ => customNames.mem_iff) same.symm
  case realmsAcyclic =>
    intro name cycle
    exact valid.realmsAcyclic name (Relation.TransGen.mono (fun _ _ listed =>
      reordered.realmParentOf valid.realmNamesDistinct distinctRealms listed) name name cycle)

/-! ### Roles and conditions -/

namespace RoleSource

variable {source source' : RoleSource}

/-- What a role grants depends on the built-in roles and on the parents and permissions of the
custom roles only: a source with the same built-in roles, whose custom roles are found alike,
grants at least as much. -/
theorem Grants.transfer
    (builtins : ∀ name, source'.registry.role? name = source.registry.role? name)
    (customs : ∀ name role, source.customRole? name = some role →
      ∃ role', source'.customRole? name = some role' ∧ role.SameAs role')
    {name permission : String} (granted : source.Grants name permission) :
    source'.Grants name permission := by
  induction granted with
  | builtin builtin found member =>
      rw [← builtins] at found
      exact .builtin builtin found member
  | own custom found member =>
      obtain ⟨role', found', same⟩ := customs _ _ found
      exact .own custom found' ((same.permissions _).mp member)
  | inherited custom found member _ parentGrants =>
      obtain ⟨role', found', same⟩ := customs _ _ found
      exact .inherited custom found' ((same.parents _).mp member) parentGrants

end RoleSource

namespace Config.Reorders

variable {config config' : Config} (reordered : config.Reorders config')
include reordered

/-- A custom role found in a configuration has a partner of the same name in the reordered one. -/
theorem customRole?_partner {registry registry' : Registry}
    (distinct' : (config'.customRoles.map (·.name)).Nodup) {name : String} {role : CustomRole}
    (found : RoleSource.customRole? ⟨registry, config.customRoles⟩ name = some role) :
    ∃ role', RoleSource.customRole? ⟨registry', config'.customRoles⟩ name = some role' ∧
      role.SameAs role' := by
  have selected := List.find?_some found
  obtain ⟨role', member', same⟩ :=
    reordered.customRoles.exists_of_mem (RoleSource.mem_of_customRole? found)
  have named : role'.name = name := same.name.symm.trans (beq_iff_eq.mp selected)
  have found' : RoleSource.customRole? ⟨registry', config'.customRoles⟩ name = some role' :=
    (@RoleSource.customRole?_eq_some_iff ⟨registry', config'.customRoles⟩ distinct' name role').mpr
      ⟨member', named⟩
  exact ⟨role', found', same⟩

/-- Roles grant the same permissions in a reordered configuration, over registries with the same
built-in roles. -/
theorem grants_iff {registry registry' : Registry}
    (distinct : (config.customRoles.map (·.name)).Nodup)
    (distinct' : (config'.customRoles.map (·.name)).Nodup)
    (builtins : ∀ name, registry'.role? name = registry.role? name) {name permission : String} :
    RoleSource.Grants ⟨registry, config.customRoles⟩ name permission ↔
      RoleSource.Grants ⟨registry', config'.customRoles⟩ name permission := by
  constructor
  · exact RoleSource.Grants.transfer builtins fun _ _ found =>
      reordered.customRole?_partner distinct' found
  · exact RoleSource.Grants.transfer (fun name => (builtins name).symm) fun _ _ found =>
      reordered.symm.customRole?_partner distinct found

end Config.Reorders

theorem Restriction.SameAs.normalize_eq {restriction restriction' : Restriction}
    (same : restriction.SameAs restriction') : restriction.normalize = restriction'.normalize := by
  apply Restriction.normalOf_iff.mp
  refine ⟨?_, Restriction.normalize_values_sortedLT restriction, fun value => ?_⟩
  · rw [Restriction.normalize_attributeName]
    exact same.attributeName
  · rw [Restriction.mem_normalize_values]
    exact same.values value

theorem Binding.normalConditions_subset {binding binding' : Binding}
    (partner : ∀ condition ∈ binding.conditions, ∃ condition' ∈ binding'.conditions,
      condition.SameAs condition') :
    binding.normalConditions ⊆ binding'.normalConditions := by
  rintro normal ⟨condition, member, restriction, restricted, rfl⟩
  obtain ⟨condition', member', related⟩ := partner condition member
  obtain ⟨restriction', restricted', sameRestriction⟩ := related.restrict_some restricted
  exact ⟨condition', member', restriction', restricted', sameRestriction.normalize_eq⟩

theorem Binding.SameAs.normalConditions_eq {binding binding' : Binding}
    (same : binding.SameAs binding') : binding.normalConditions = binding'.normalConditions :=
  Set.Subset.antisymm (Binding.normalConditions_subset same.conditions.1)
    (Binding.normalConditions_subset same.symm.conditions.1)

/-! ### Direct readings -/

theorem Registry.implicitFor_sameMembers {registry registry' : Registry}
    (implicitRoles : SameMembers registry.implicitRootRoles registry'.implicitRootRoles)
    (project : String) :
    SameMembers (registry.implicitFor project) (registry'.implicitFor project) := by
  intro binding
  rw [Config.mem_implicitFor, Config.mem_implicitFor]
  constructor
  · rintro ⟨external, role, implicit, rfl⟩
    exact ⟨external, role, (implicitRoles role).mp implicit, rfl⟩
  · rintro ⟨external, role, implicit, rfl⟩
    exact ⟨external, role, (implicitRoles role).mpr implicit, rfl⟩

/-- The shared assumptions of the transfers below: both configurations have distinct custom role
names, and the registries have the same built-in roles and the same implicit root roles. -/
structure Config.Reorders.Compatible (config config' : Config) (registry registry' : Registry) :
    Prop where
  distinct : (config.customRoles.map (·.name)).Nodup
  distinct' : (config'.customRoles.map (·.name)).Nodup
  builtins : ∀ name, registry'.role? name = registry.role? name
  implicitRoles : SameMembers registry.implicitRootRoles registry'.implicitRootRoles

theorem Config.Reorders.Compatible.symm {config config' : Config} {registry registry' : Registry}
    (compatible : Compatible config config' registry registry') :
    Compatible config' config registry' registry :=
  ⟨compatible.distinct', compatible.distinct, fun name => (compatible.builtins name).symm,
    compatible.implicitRoles.symm⟩

namespace Config.Reorders

variable {config config' : Config} (reordered : config.Reorders config')
  {registry registry' : Registry} {project : String}
include reordered

theorem extendsRealm {child parent : String} (extended : config.ExtendsRealm child parent) :
    config'.ExtendsRealm child parent := by
  obtain ⟨realm, member, named, listed⟩ := extended
  obtain ⟨realm', member', same⟩ := reordered.realms.exists_of_mem member
  exact ⟨realm', member', same.name.symm.trans named, (same.parents parent).mp listed⟩

theorem inheritsFrom {name ancestor : String} (inherits : config.InheritsFrom name ancestor) :
    config'.InheritsFrom name ancestor := by
  rcases inherits with chain | fromRoot
  · exact Or.inl (Relation.ReflTransGen.mono (fun _ _ extended => reordered.extendsRealm extended)
      _ _ chain)
  · exact Or.inr fromRoot

/-- A binding a realm name declares has a partner that the name declares after reordering. -/
theorem declaresBinding_partner
    (implicitRoles : SameMembers registry.implicitRootRoles registry'.implicitRootRoles)
    {name : String} {binding : Binding}
    (declared : config.DeclaresBinding registry project name binding) :
    ∃ binding', config'.DeclaresBinding registry' project name binding' ∧
      binding.SameAs binding' := by
  rcases declared with ⟨realm, member, named, listed⟩ | ⟨isRoot, external, role, implicit, rfl⟩
  · obtain ⟨realm', member', same⟩ := reordered.realms.exists_of_mem member
    obtain ⟨binding', listed', sameBinding⟩ := same.bindings.1 binding listed
    exact ⟨binding', Or.inl ⟨realm', member', same.name.symm.trans named, listed'⟩, sameBinding⟩
  · exact ⟨_, Or.inr ⟨isRoot, external, role, (implicitRoles role).mp implicit, rfl⟩,
      Binding.SameAs.refl _⟩

theorem directGrants_subset (compatible : Compatible config config' registry registry')
    (name : String) :
    config.directGrants registry project name ⊆ config'.directGrants registry' project name := by
  rintro ⟨principal, permission, conditions⟩ ⟨ancestor, binding, inherits, declared, named, granted,
    rfl⟩
  obtain ⟨binding', declared', same⟩ :=
    reordered.declaresBinding_partner compatible.implicitRoles declared
  refine ⟨ancestor, binding', reordered.inheritsFrom inherits, declared',
    (same.principals principal).mp named, ?_, ?_⟩
  · rw [← same.role]
    exact (reordered.grants_iff compatible.distinct compatible.distinct' compatible.builtins).mp
      granted
  · have sameConditions := same.normalConditions_eq
    rw [Binding.normalConditions_eq, Binding.normalConditions_eq] at sameConditions
    exact sameConditions

theorem directMembers_subset (compatible : Compatible config config' registry registry')
    (name : String) :
    config.directMembers registry project name ⊆ config'.directMembers registry' project name := by
  rintro ⟨principal, conditions⟩ ⟨ancestor, binding, inherits, declared, named, rfl⟩
  obtain ⟨binding', declared', same⟩ :=
    reordered.declaresBinding_partner compatible.implicitRoles declared
  exact ⟨ancestor, binding', reordered.inheritsFrom inherits, declared',
    (same.principals principal).mp named, same.normalConditions_eq⟩

/-- A permission the role of a declared binding grants, the role of a declared binding grants
after reordering. -/
theorem declaredGrant (compatible : Compatible config config' registry registry')
    {permission : String}
    (granted : ∃ name binding, config.DeclaresBinding registry project name binding ∧
      RoleSource.Grants ⟨registry, config.customRoles⟩ binding.role permission) :
    ∃ name binding, config'.DeclaresBinding registry' project name binding ∧
      RoleSource.Grants ⟨registry', config'.customRoles⟩ binding.role permission := by
  obtain ⟨name, binding, declared, roleGrants⟩ := granted
  obtain ⟨binding', declared', same⟩ :=
    reordered.declaresBinding_partner compatible.implicitRoles declared
  refine ⟨name, binding', declared', ?_⟩
  rw [← same.role]
  exact (reordered.grants_iff compatible.distinct compatible.distinct' compatible.builtins).mp
    roleGrants

/-- The normal form of a declared binding's condition is one after reordering. -/
theorem declaredCondition (compatible : Compatible config config' registry registry')
    {normal : Restriction}
    (listed : ∃ name binding, config.DeclaresBinding registry project name binding ∧
      normal ∈ binding.normalConditions) :
    ∃ name binding, config'.DeclaresBinding registry' project name binding ∧
      normal ∈ binding.normalConditions := by
  obtain ⟨name, binding, declared, normalListed⟩ := listed
  obtain ⟨binding', declared', same⟩ :=
    reordered.declaresBinding_partner compatible.implicitRoles declared
  rw [same.normalConditions_eq] at normalListed
  exact ⟨name, binding', declared', normalListed⟩

theorem directGrants_eq (compatible : Compatible config config' registry registry')
    (name : String) :
    config.directGrants registry project name = config'.directGrants registry' project name :=
  Set.Subset.antisymm (reordered.directGrants_subset compatible name)
    (reordered.symm.directGrants_subset compatible.symm name)

theorem directMembers_eq (compatible : Compatible config config' registry registry')
    (name : String) :
    config.directMembers registry project name = config'.directMembers registry' project name :=
  Set.Subset.antisymm (reordered.directMembers_subset compatible name)
    (reordered.symm.directMembers_subset compatible.symm name)

end Config.Reorders

/-! ### The working graph -/

theorem RealmGraph.withImplicit_sameAs {implicit implicit' : List Binding}
    (implicits : SameMembers implicit implicit') {realm realm' : Realm}
    (same : realm.SameAs realm') :
    (RealmGraph.withImplicit implicit realm).SameAs (RealmGraph.withImplicit implicit' realm') := by
  refine ⟨?_, ?_, ?_, ?_⟩
  · rw [RealmGraph.withImplicit_name, RealmGraph.withImplicit_name]
    exact same.name
  · rw [RealmGraph.withImplicit_parents, RealmGraph.withImplicit_parents]
    exact same.parents
  · rw [RealmGraph.withImplicit_bindings, RealmGraph.withImplicit_bindings, ← same.name]
    apply Alike.append same.bindings
    split
    · exact Alike.of_sameMembers Binding.SameAs.refl implicits
    · exact Alike.refl Binding.SameAs.refl []
  · rw [RealmGraph.withImplicit_enforceInService, RealmGraph.withImplicit_enforceInService]
    exact same.services

namespace Config.Reorders

variable {config config' : Config} (reordered : config.Reorders config')
  {registry registry' : Registry} {project : String}
  (checked : config.Checked registry) (checked' : config'.Checked registry')
  (implicitRoles : SameMembers registry.implicitRootRoles registry'.implicitRootRoles)
include reordered checked checked' implicitRoles

/-- Each working realm has a partner of the same name among the reordered working realms. -/
theorem workingRealm_partner {realm : Realm}
    (working : realm ∈ (config.workingGraph registry project).realms) :
    ∃ realm' ∈ (config'.workingGraph registry' project).realms, realm.SameAs realm' := by
  have implicits := Registry.implicitFor_sameMembers implicitRoles project
  rcases checked.mem_workingGraph_realms.mp working with ⟨declared, member, rfl⟩ | ⟨absent, rfl⟩
  · obtain ⟨declared', member', same⟩ := reordered.realms.exists_of_mem member
    exact ⟨_, checked'.mem_workingGraph_realms.mpr (Or.inl ⟨declared', member', rfl⟩),
      RealmGraph.withImplicit_sameAs implicits same⟩
  · -- no root is declared on either side, so both add the same empty root
    have absent' : rootRealm ∉ config'.realms.map (·.name) := fun present =>
      absent (reordered.realmNames_perm.mem_iff.mpr present)
    exact ⟨_, checked'.mem_workingGraph_realms.mpr (Or.inr ⟨absent', rfl⟩),
      RealmGraph.withImplicit_sameAs implicits (Realm.SameAs.refl _)⟩

theorem realm?_partner {name : String} {realm : Realm}
    (found : (config.workingGraph registry project).realm? name = some realm) :
    ∃ realm', (config'.workingGraph registry' project).realm? name = some realm' ∧
      realm.SameAs realm' := by
  obtain ⟨working, named⟩ := (RealmGraph.realm?_eq_some_iff workingGraph_names_nodup).mp found
  obtain ⟨realm', working', same⟩ :=
    reordered.workingRealm_partner checked checked' implicitRoles working
  exact ⟨realm', (RealmGraph.realm?_eq_some_iff workingGraph_names_nodup).mpr
    ⟨working', same.name.symm.trans named⟩, same⟩

theorem nameStep {child parent : String}
    (step : (config.workingGraph registry project).NameStep child parent) :
    (config'.workingGraph registry' project).NameStep child parent := by
  obtain ⟨realm, found, listed⟩ := step
  obtain ⟨realm', found', same⟩ := reordered.realm?_partner checked checked' implicitRoles found
  refine ⟨realm', found', ?_⟩
  rw [RealmGraph.mem_parentNames] at listed ⊢
  rw [← same.name]
  exact ⟨listed.1, listed.2.imp_right (same.parents parent).mp⟩

theorem enforces {name service : String}
    (enforced : (config.workingGraph registry project).Enforces name service) :
    (config'.workingGraph registry' project).Enforces name service := by
  obtain ⟨reached, reach, realm, found, listed⟩ := enforced
  obtain ⟨realm', found', same⟩ := reordered.realm?_partner checked checked' implicitRoles found
  exact ⟨reached, Relation.ReflTransGen.mono
      (fun _ _ step => reordered.nameStep checked checked' implicitRoles step) _ _ reach,
    realm', found', (same.services service).mp listed⟩

/-- The services that enforce a realm are the same after reordering. -/
theorem servicesOf_iff {name : String} {services : Option (List String)} :
    (config.workingGraph registry project).ServicesOf name services ↔
      (config'.workingGraph registry' project).ServicesOf name services := by
  have enforcesIff : ∀ service, (config.workingGraph registry project).Enforces name service ↔
      (config'.workingGraph registry' project).Enforces name service := fun _ =>
    ⟨reordered.enforces checked checked' implicitRoles,
      reordered.symm.enforces checked' checked implicitRoles.symm⟩
  cases services with
  | none => simp only [RealmGraph.ServicesOf, enforcesIff]
  | some services => simp only [RealmGraph.ServicesOf, enforcesIff]

end Config.Reorders

end RealmAccess
