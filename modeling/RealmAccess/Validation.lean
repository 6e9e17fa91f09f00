import RealmAccess.Error
import RealmAccess.Config.Basic
/-!
# Checking a configuration

The checks a configuration passes before it is expanded, among them that realms and custom
roles do not inherit in a cycle, and the measure by which that search, and every other
depth-first search over inheritance in this library, ends.
-/

/-! ## Why depth-first searches end

The searches of this library walk inheritance depth first and keep the names on the current
path. A search steps into a name only if the name is one of finitely many known names and not
on the path already, so the number of known names off the path, `unvisited`, falls with every
step in. This is the measure their recursion ends by.
-/

namespace RealmAccess.Search

/-- How many of the known names are not on the path. -/
def unvisited (known path : List String) : Nat :=
  known.countP fun name => decide (name ∉ path)

/-- Putting a known name that is not on the path onto it leaves fewer known names off it. -/
theorem unvisited_cons_lt {known path : List String} {name : String}
    (isKnown : name ∈ known) (fresh : name ∉ path) :
    unvisited known (name :: path) < unvisited known path := by
  unfold unvisited
  induction known with
  | nil => simp at isKnown
  | cons head tail ih =>
      rw [List.countP_cons, List.countP_cons]
      have mono : tail.countP (fun x => decide (x ∉ name :: path)) ≤
          tail.countP (fun x => decide (x ∉ path)) :=
        List.countP_mono_left (by intro x _ h; simp at h ⊢; exact h.2)
      by_cases same : head = name
      · subst same
        have offAfter : decide (head ∉ head :: path) = false := by simp
        have offBefore : decide (head ∉ path) = true := by simp [fresh]
        rw [offAfter, offBefore]
        simp only [Bool.false_eq_true, ↓reduceIte]
        omega
      · have inTail : name ∈ tail := by
          rcases List.mem_cons.mp isKnown with h | h
          · exact absurd h.symm same
          · exact h
        have smaller := ih inTail
        have sameTest : decide (head ∉ name :: path) = decide (head ∉ path) := by simp [same]
        rw [sameTest]
        omega

end RealmAccess.Search

/-! ## Finding a cycle of inheritance

Realms and custom roles name the ones they inherit from. An `Inheritance` maps names to the
names of their parents; a name it does not list has no parents, and of two entries for one name
the later counts.

`Inheritance.findCycle` searches depth first from each name of a given order, parents in their
listed order, and reports the first cycle it closes: the names from the one met again down to
the last one reached, and the one met again once more at the end.
-/

namespace RealmAccess

/-- Names with the names of their parents. -/
abbrev Inheritance := List (String × List String)

namespace Inheritance

/-- The parents of a name. -/
def parentsOf (graph : Inheritance) (name : String) : List String :=
  match graph.reverse.find? (·.1 == name) with
  | some entry => entry.2
  | none => []

/-- Every name that the map mentions. -/
def names (graph : Inheritance) : List String :=
  graph.flatMap fun entry => entry.1 :: entry.2

theorem mem_names_of_mem_parentsOf {graph : Inheritance} {name parent : String}
    (h : parent ∈ graph.parentsOf name) : parent ∈ graph.names := by
  unfold parentsOf at h
  split at h
  · next entry found =>
      have inGraph : entry ∈ graph := List.mem_reverse.mp (List.mem_of_find?_eq_some found)
      exact List.mem_flatMap.mpr ⟨entry, inGraph, List.mem_cons_of_mem _ h⟩
  · simp at h

/-- The cycle closed by meeting `parent` again on the path (innermost name first). -/
def cycleAt (path : List String) (parent : String) : List String :=
  (path.takeWhile (· ≠ parent) ++ [parent]).reverse ++ [parent]

set_option linter.unusedVariables false in
/-- Visits the parents of the innermost name of `path`, in order, each with everything it
inherits from; `done` lists the names whose search is finished. Gives the first cycle closed, or
else the names finished afterwards. -/
def visitParents (graph : Inheritance) (path : List String) :
    (parents : List String) → (done : List String) → Except (List String) (List String)
  | [], done => .ok done
  | parent :: more, done =>
      if parent ∈ path then .error (cycleAt path parent)
      else if parent ∈ done then visitParents graph path more done
      else if inGraph : parent ∈ graph.names then
        match visitParents graph (parent :: path) (graph.parentsOf parent) done with
        | .error cycle => .error cycle
        | .ok finished => visitParents graph path more (parent :: finished)
      else
        -- a name the map does not mention has no parents
        visitParents graph path more (parent :: done)
termination_by parents _ => (Search.unvisited graph.names path, parents.length)
decreasing_by
  all_goals first
    | exact Prod.Lex.left _ _ (Search.unvisited_cons_lt inGraph (by assumption))
    | exact Prod.Lex.right _ (by simp)

/-- Searches from each name of `order` that is not finished yet. -/
def findCycleFrom (graph : Inheritance) : (order : List String) → (done : List String) →
    Option (List String)
  | [], _ => none
  | start :: more, done =>
      if start ∈ done then findCycleFrom graph more done
      else
        match visitParents graph [start] (graph.parentsOf start) done with
        | .error cycle => some cycle
        | .ok finished => findCycleFrom graph more (start :: finished)

/-- The first cycle found searching from the names of `order` in turn. -/
def findCycle (graph : Inheritance) (order : List String) : Option (List String) :=
  findCycleFrom graph order []

end Inheritance

/-! ## Checking a configuration

A configuration is checked against a registry before it is expanded. The checks run in a fixed
order and the first broken rule is reported:

* custom roles: each name has the `customRole/` prefix and is new; then, role by role, each
  permission is known (and not internal, outside the internal project), and each role it extends
  is a declared custom role or a usable built-in role; then the custom roles may not inherit in a
  cycle;
* realms: each name is `@root`, `@legacy` or 1 to 400 characters of `a-z 0-9 _ . - /`, and is
  new; then, realm by realm, its parents, services and bindings; then the realms may not inherit
  in a cycle.

A built-in role is usable when it has the `role/` prefix, the registry knows it, and it is not
internal outside the internal project.
-/

/-- Refuses with an issue at a path. -/
def refuse (path : Path) (issue : Issue) : Except Violation Unit :=
  .error ⟨path, issue⟩

/-- Runs a check on each element of a list with its position, stopping at the first refusal. -/
def eachIndexed {α : Type} (items : List α) (check : Nat → α → Except Violation Unit) :
    Except Violation Unit :=
  items.zipIdx.forM fun (item, position) => check position item

/-- The characters of an ordinary realm name. -/
def isRealmNameChar (c : Char) : Bool :=
  ('a' ≤ c && c ≤ 'z') || ('0' ≤ c && c ≤ '9') || c = '_' || c = '.' || c = '-' || c = '/'

/-- An ordinary realm name: 1 to 400 characters of `isRealmNameChar`. -/
def isRealmName (name : String) : Bool :=
  1 ≤ name.length && name.length ≤ 400 && name.toList.all isRealmNameChar

/-- A principal `<kind>:<value>`: text before its first colon and text after it. -/
def isPrincipal (principal : String) : Bool :=
  let kind := principal.toList.takeWhile (· ≠ ':')
  match principal.toList.dropWhile (· ≠ ':') with
  | _ :: value => !kind.isEmpty && !value.isEmpty
  | [] => false

/-- A permission used by a custom role must be known, and not internal outside the internal
project. -/
def checkPermission (registry : Registry) (internal : Bool) (path : Path) (name : String) :
    Except Violation Unit :=
  match registry.permission? name with
  | none => refuse path (.permissionUndefined name)
  | some permission =>
      if permission.internal && !internal then refuse path (.permissionInternal name)
      else .ok ()

/-- A built-in role must have the `role/` prefix, be known, and not be internal outside the
internal project. -/
def checkBuiltinRole (registry : Registry) (internal : Bool) (path : Path) (name : String) :
    Except Violation Unit :=
  if !name.startsWith builtinRolePrefix then refuse path (.roleWithoutPrefix name)
  else
    match registry.role? name with
    | none => refuse path (.roleUndefined name)
    | some role =>
        if role.internal && !internal then refuse path (.roleInternal name)
        else .ok ()

/-- A role named in a binding or extended by a custom role: a declared custom role, or a usable
built-in role. -/
def checkRole (registry : Registry) (internal : Bool) (customRoles : List String) (path : Path)
    (name : String) : Except Violation Unit :=
  if name.startsWith customRolePrefix then
    if customRoles.contains name then .ok () else refuse path (.customRoleUndefined name)
  else checkBuiltinRole registry internal path name

/-- The inheritance among custom roles: each custom role with the custom roles it extends. -/
def customRoleInheritance (roles : List CustomRole) : Inheritance :=
  roles.map fun role => (role.name, role.parents.filter (·.startsWith customRolePrefix))

/-- The checks of the custom roles. -/
def checkCustomRoles (registry : Registry) (internal : Bool) (roles : List CustomRole) :
    Except Violation Unit := do
  eachIndexed roles fun i role => do
    let path := [.field "customRoles", .index i, .field "name"]
    if !role.name.startsWith customRolePrefix then refuse path (.customRoleWithoutPrefix role.name)
    if (roles.take i).any (·.name == role.name) then refuse path (.customRoleRedefined role.name)
  let declared := roles.map (·.name)
  eachIndexed roles fun i role => do
    let path : Path := [.field "customRoles", .index i]
    eachIndexed role.permissions fun j name =>
      checkPermission registry internal (path ++ [.field "permissions", .index j]) name
    eachIndexed role.parents fun j name =>
      checkRole registry internal declared (path ++ [.field "extends", .index j]) name
  match (customRoleInheritance roles).findCycle declared with
  | some cycle => refuse [.field "customRoles"] (.customRoleCycle cycle)
  | none => .ok ()

/-- A condition must restrict a nonempty, allowed attribute to at least one value. -/
def checkCondition (registry : Registry) (path : Path) (condition : Condition) :
    Except Violation Unit :=
  match condition.restrict with
  | none => refuse path .emptyCondition
  | some restriction =>
      let attributePath := path ++ [.field "restrict", .field "attribute"]
      if restriction.attributeName.isEmpty then refuse attributePath .emptyAttribute
      else if !registry.allowsAttribute restriction.attributeName then
        refuse attributePath (.attributeNotAllowed restriction.attributeName)
      else if restriction.values.isEmpty then
        refuse (path ++ [.field "restrict", .field "values"]) .noValues
      else .ok ()

/-- The checks of a binding: its role, its principals, its conditions. -/
def checkBinding (registry : Registry) (internal : Bool) (customRoles : List String)
    (path : Path) (binding : Binding) : Except Violation Unit := do
  checkRole registry internal customRoles (path ++ [.field "role"]) binding.role
  eachIndexed binding.principals fun k principal =>
    if isPrincipal principal then .ok ()
    else refuse (path ++ [.field "principals", .index k]) (.malformedPrincipal principal)
  eachIndexed binding.conditions fun k condition =>
    checkCondition registry (path ++ [.field "conditions", .index k]) condition

/-- The checks of a realm: its parents, its services, its bindings. -/
def checkRealm (registry : Registry) (internal : Bool) (realmNames customRoles : List String)
    (path : Path) (realm : Realm) : Except Violation Unit := do
  eachIndexed realm.parents fun j parent => do
    let parentPath := path ++ [.field "extends", .index j]
    if parent = realm.name then refuse parentPath .realmExtendsItself
    if realm.name = rootRealm then refuse parentPath .rootRealmExtends
    if parent ≠ rootRealm && !realmNames.contains parent then
      refuse parentPath (.realmUndefined parent)
  eachIndexed realm.enforceInService fun j service =>
    if service.isEmpty then refuse (path ++ [.field "enforceInService", .index j]) .emptyServiceName
    else .ok ()
  eachIndexed realm.bindings fun j binding =>
    checkBinding registry internal customRoles (path ++ [.field "bindings", .index j]) binding

/-- A realm name must be special or ordinary. -/
def checkRealmName (path : Path) (name : String) : Except Violation Unit :=
  if name = rootRealm || name = legacyRealm then .ok ()
  else if name.startsWith "@" then refuse path (.unknownSpecialRealm name)
  else if !isRealmName name then refuse path (.invalidRealmName name)
  else .ok ()

/-- The inheritance among realms: each realm with the realms it extends, the root left out. -/
def realmInheritance (realms : List Realm) : Inheritance :=
  realms.map fun realm => (realm.name, realm.parents.filter (· ≠ rootRealm))

/-- The checks of the realms. -/
def checkRealms (registry : Registry) (internal : Bool) (config : Config) :
    Except Violation Unit := do
  eachIndexed config.realms fun i realm => do
    let path := [.field "realms", .index i, .field "name"]
    checkRealmName path realm.name
    if (config.realms.take i).any (·.name == realm.name) then
      refuse path (.realmRedefined realm.name)
  let names := config.realms.map (·.name)
  let customRoles := config.customRoles.map (·.name)
  eachIndexed config.realms fun i realm =>
    checkRealm registry internal names customRoles [.field "realms", .index i] realm
  match (realmInheritance config.realms).findCycle names with
  | some cycle => refuse [.field "realms"] (.realmCycle cycle)
  | none => .ok ()

/-- Checks a configuration against a registry; `internal` allows internal roles and
permissions. The first broken rule is reported. -/
def Config.validate (config : Config) (registry : Registry) (internal : Bool) :
    Except Violation Unit := do
  checkCustomRoles registry internal config.customRoles
  checkRealms registry internal config

end RealmAccess
