import RealmAccess.Expansion.Numbering
import RealmAccess.Error
import RealmAccess.Config.Basic
import RealmAccess.Validation
/-!
# Resolving roles

A role grants permissions. A built-in role (`role/…`) grants the permissions the registry lists
for it; a custom role (`customRole/…`) grants its own permissions and those of every role it
extends. Resolution gives a role's permissions as numbers of a `NameTable`, sorted and each once.

Custom roles are resolved depth first, parents in declaration order, and a role's own
permissions are numbered after all its parents are resolved. Every resolved role is remembered,
across calls and also when a call fails later on. A custom role met again while it is being
resolved closes a cycle: before stepping into the parents of a role, its parents are checked
last first, and a parent on the path is reported; a role reached on its own path is reported
itself.
-/

namespace RealmAccess

/-- What resolution keeps between calls: the permissions of each resolved role, and the
numbering of permissions. -/
structure RoleMemo where
  resolved : List (String × List Nat) := []
  table : NameTable := {}
  deriving Repr, Inhabited

/-- A step of resolution: it may fail, and what it resolved before failing is kept. -/
abbrev ResolveM := ExceptT ExpandError (StateM RoleMemo)

/-- Where roles are defined: built-in roles in a registry, custom roles in a configuration; of two
custom roles with one name the later counts. -/
structure RoleSource where
  registry : Registry
  customRoles : List CustomRole

namespace RoleSource

/-- The custom role of a name, as declared last. -/
def customRole? (source : RoleSource) (name : String) : Option CustomRole :=
  source.customRoles.reverse.find? (·.name == name)

/-- The names of the custom roles. -/
def customNames (source : RoleSource) : List String :=
  source.customRoles.map (·.name)

theorem mem_customNames_of_customRole? {source : RoleSource} {name : String} {role : CustomRole}
    (found : source.customRole? name = some role) : name ∈ source.customNames := by
  unfold customRole? at found
  have inRoles : role ∈ source.customRoles := List.mem_reverse.mp (List.mem_of_find?_eq_some found)
  have sameName : role.name = name := by
    have := List.find?_some found
    simpa using this
  exact List.mem_map.mpr ⟨role, inRoles, sameName⟩

/-- The remembered permissions of a role. -/
def memoized (name : String) : ResolveM (Option (List Nat)) :=
  return (← get).resolved.lookup name

/-- Remembers the permissions of a role. -/
def remember (name : String) (permissions : List Nat) : ResolveM Unit :=
  modify fun memo => { memo with resolved := (name, permissions) :: memo.resolved }

/-- Numbers permissions in order. -/
def number (names : List String) : ResolveM (List Nat) :=
  modifyGet fun memo =>
    let (indexes, table) := memo.table.internAll names
    (indexes, { memo with table := table })

/-- The remembered permissions of a resolved parent. -/
def inherited (parent : String) : ResolveM (List Nat) := do
  match ← memoized parent with
  | some permissions => pure permissions
  | none => throw (.unknownRole parent)

set_option linter.unusedVariables false in
/-- Resolves a role and everything it extends; `path` holds the custom roles being resolved
around it, innermost first. -/
def visit (source : RoleSource) (path : List String) (name : String) : ResolveM Unit := do
  if (← memoized name).isSome then return
  if name.startsWith builtinRolePrefix then
    match source.registry.role? name with
    | none => throw (.unknownRole name)
    | some role => remember name (Order.sortNats (← number role.permissions))
  else if name.startsWith customRolePrefix then
    if onPath : name ∈ path then throw (.cycle .role name)
    else
      match found : source.customRole? name with
      | none => throw (.unknownRole name)
      | some role =>
          match role.parents.reverse.find? (· ∈ name :: path) with
          | some parent => throw (.cycle .role parent)
          | none =>
              for parent in role.parents do
                visit source (name :: path) parent
              let own ← number role.permissions
              let fromParents ← role.parents.mapM inherited
              remember name (Order.sortNats (own ++ fromParents.flatten))
  else throw (.invalidRole name)
termination_by Search.unvisited source.customNames path
decreasing_by exact Search.unvisited_cons_lt (mem_customNames_of_customRole? found) onPath

/-- The permissions of a role, sorted and each once. -/
def resolve (source : RoleSource) (name : String) : ResolveM (List Nat) := do
  source.visit [] name
  match ← memoized name with
  | some permissions => pure permissions
  | none => throw (.unknownRole name)

/-- Resolves roles one after another on one memo; each answer stands on its own. -/
def resolveAll (source : RoleSource) (memo : RoleMemo) :
    List String → List (Except ExpandError (List Nat)) × RoleMemo
  | [] => ([], memo)
  | name :: more =>
      let (answer, memo) := (source.resolve name).run.run memo
      let (answers, memo) := source.resolveAll memo more
      (answer :: answers, memo)

end RoleSource

end RealmAccess
