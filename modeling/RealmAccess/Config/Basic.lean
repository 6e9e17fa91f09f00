
/-!
# Configurations and registries

The two inputs of expansion: a project's realms configuration, and the permissions registry
that the configuration's roles and permissions are checked against.
-/

/-! ## Realms configurations

A project's realms configuration declares realms and custom roles. A realm has a name, the
realms it extends, its bindings, and the services that enforce its access rules. A binding
grants one role to principals, under conditions that must all hold; a condition restricts a
request attribute to a set of values. A custom role collects permissions and the permissions of
the roles it extends.

Every realm extends the root realm `@root`, whether it says so or not. Roles are named with a
prefix that says where they are defined: `role/` for roles of the permissions registry and
`customRole/` for roles of the configuration.
-/

namespace RealmAccess

/-- The realm that every other realm extends. -/
def rootRealm : String := "@root"

/-- A realm name with no meaning for expansion, kept for older access lists. -/
def legacyRealm : String := "@legacy"

/-- The project whose configurations may use internal roles and get no implicit root bindings. -/
def internalProject : String := "@internal"

/-- The prefix of roles defined in the permissions registry. -/
def builtinRolePrefix : String := "role/"

/-- The prefix of roles defined in a configuration. -/
def customRolePrefix : String := "customRole/"

/-- A request attribute restricted to a set of values. -/
structure Restriction where
  attributeName : String
  values : List String := []
  deriving Repr, DecidableEq, Inhabited

/-- A condition on a request; a condition without a restriction is empty and is refused. -/
structure Condition where
  restrict : Option Restriction := none
  deriving Repr, DecidableEq, Inhabited

/-- A role granted to principals under conditions that must all hold. -/
structure Binding where
  role : String
  principals : List String := []
  conditions : List Condition := []
  deriving Repr, DecidableEq, Inhabited

/-- A realm: its name, the realms it extends (`parents`), its bindings, and the services that
enforce it. -/
structure Realm where
  name : String
  parents : List String := []
  bindings : List Binding := []
  enforceInService : List String := []
  deriving Repr, DecidableEq, Inhabited

/-- A role defined in a configuration: its name, the roles it extends (`parents`), and its own
permissions. -/
structure CustomRole where
  name : String
  parents : List String := []
  permissions : List String := []
  deriving Repr, DecidableEq, Inhabited

/-- A project's realms configuration. -/
structure Config where
  realms : List Realm := []
  customRoles : List CustomRole := []
  deriving Repr, DecidableEq, Inhabited

/-! ## Permissions registries

A registry holds what the server knows outside any one project: its permissions, its built-in
roles with their permissions, the roles that every project grants to itself in its root realm,
and the attributes that conditions may restrict. Permissions and roles may be internal, usable
only by the internal project.

Definitions are kept newest first, so a look-up by name finds the definition made last: a later
definition of a name replaces an earlier one. An empty attribute list allows every attribute.
-/

/-- A permission and whether it is internal. -/
structure PermissionDef where
  name : String
  internal : Bool := false
  deriving Repr, DecidableEq, Inhabited

/-- A built-in role: its permissions and whether it is internal. -/
structure RoleDef where
  name : String
  permissions : List String := []
  internal : Bool := false
  deriving Repr, DecidableEq, Inhabited

/-- A permissions registry, definitions newest first. -/
structure Registry where
  permissions : List PermissionDef := []
  roles : List RoleDef := []
  implicitRootRoles : List String := []
  attributes : List String := []
  deriving Repr, Inhabited

/-- A change to a registry. -/
inductive Registry.Edit where
  /-- Defines a permission, replacing any of the same name. -/
  | addPermission (name : String) (internal : Bool)
  /-- Defines a built-in role, replacing any of the same name; its permissions that the
  registry does not know yet are defined with the role's internal flag. -/
  | addRole (name : String) (permissions : List String) (internal : Bool)
  /-- Adds a role that every project grants to itself in its root realm. -/
  | addImplicitRootRole (name : String)
  /-- Allows conditions to restrict an attribute. -/
  | allowAttribute (name : String)

namespace Registry

/-- The permission of a name, as last defined. -/
def permission? (registry : Registry) (name : String) : Option PermissionDef :=
  registry.permissions.find? (·.name == name)

/-- The built-in role of a name, as last defined. -/
def role? (registry : Registry) (name : String) : Option RoleDef :=
  registry.roles.find? (·.name == name)

/-- Whether conditions may restrict an attribute: every attribute when none is listed. -/
def allowsAttribute (registry : Registry) (name : String) : Bool :=
  registry.attributes.isEmpty || registry.attributes.contains name

/-- The bindings a project grants to itself in its root realm: each implicit root role, in
order and with repeats, to the principal `project:<project>`. -/
def implicitBindings (registry : Registry) (project : String) : List Binding :=
  registry.implicitRootRoles.map fun role =>
    { role := role, principals := ["project:" ++ project], conditions := [] }

/-- Defines a permission. -/
def addPermission (registry : Registry) (name : String) (internal : Bool) : Registry :=
  { registry with permissions := { name := name, internal := internal } :: registry.permissions }

/-- Defines a permission unless one of that name is known. -/
def addPermissionIfNew (internal : Bool) (registry : Registry) (name : String) : Registry :=
  if (registry.permission? name).isSome then registry else registry.addPermission name internal

/-- Defines a built-in role and the permissions of it that are not known yet. -/
def addRole (registry : Registry) (name : String) (permissions : List String)
    (internal : Bool) : Registry :=
  let known := permissions.foldl (addPermissionIfNew internal) registry
  { known with
    roles := { name := name, permissions := permissions, internal := internal } :: known.roles }

/-- Applies one change. -/
def apply (registry : Registry) : Edit → Registry
  | .addPermission name internal => registry.addPermission name internal
  | .addRole name permissions internal => registry.addRole name permissions internal
  | .addImplicitRootRole name =>
      { registry with implicitRootRoles := registry.implicitRootRoles ++ [name] }
  | .allowAttribute name =>
      if registry.attributes.contains name then registry
      else { registry with attributes := registry.attributes ++ [name] }

/-- Applies changes in order. -/
def applyAll (registry : Registry) (edits : List Edit) : Registry :=
  edits.foldl apply registry

end Registry

end RealmAccess
