import RealmAccess.Text
/-!
# Errors

The two ways a configuration fails: the checks refuse it with a violation, or expansion stops
with an error.
-/

/-! ## Violations

A configuration that breaks a rule is refused with a violation: where it breaks the rule, as a
path into the configuration such as `realms[2].bindings[0].role`, and which rule it breaks, as an
`Issue` whose `detail` names the offending value in quotes.
-/

namespace RealmAccess

/-- One step of a path into a configuration: a field, or a position in a list. -/
inductive PathStep where
  | field (name : String)
  | index (position : Nat)
  deriving Repr, DecidableEq

/-- A path into a configuration, outermost step first. -/
abbrev Path := List PathStep

/-- The text of a path: fields joined by dots, positions in brackets. -/
def Path.render (path : Path) : String :=
  path.foldl addStep ""
where
  /-- The text of a path with one more step. -/
  addStep (text : String) : PathStep → String
    | .field name => if text.isEmpty then name else text ++ "." ++ name
    | .index position => text ++ "[" ++ toString position ++ "]"

/-- A rule of configurations that a value breaks. -/
inductive Issue where
  | customRoleWithoutPrefix (name : String)
  | customRoleRedefined (name : String)
  | permissionUndefined (name : String)
  | permissionInternal (name : String)
  | customRoleUndefined (name : String)
  | roleWithoutPrefix (name : String)
  | roleUndefined (name : String)
  | roleInternal (name : String)
  | customRoleCycle (cycle : List String)
  | unknownSpecialRealm (name : String)
  | invalidRealmName (name : String)
  | realmRedefined (name : String)
  | realmExtendsItself
  | rootRealmExtends
  | realmUndefined (name : String)
  | emptyServiceName
  | malformedPrincipal (name : String)
  | emptyCondition
  | emptyAttribute
  | attributeNotAllowed (name : String)
  | noValues
  | realmCycle (cycle : List String)
  deriving Repr, DecidableEq

/-- The wording of an issue; names stand in quotes. -/
def Issue.detail : Issue → String
  | .customRoleWithoutPrefix name =>
      "custom role " ++ Text.quote name ++ " must have prefix " ++ Text.quote "customRole/"
  | .customRoleRedefined name => "custom role " ++ Text.quote name ++ " is already defined"
  | .permissionUndefined name => "permission " ++ Text.quote name ++ " is not defined"
  | .permissionInternal name =>
      "permission " ++ Text.quote name ++ " can only be used in internal roles"
  | .customRoleUndefined name => "custom role " ++ Text.quote name ++ " is not defined"
  | .roleWithoutPrefix name =>
      "role " ++ Text.quote name ++ " must have prefix " ++ Text.quote "role/" ++ " or " ++
        Text.quote "customRole/"
  | .roleUndefined name => "role " ++ Text.quote name ++ " is not defined"
  | .roleInternal name => "role " ++ Text.quote name ++ " can only be used in internal realms"
  | .customRoleCycle cycle => "custom roles form a cycle: " ++ " -> ".intercalate cycle
  | .unknownSpecialRealm name => "unknown special realm name " ++ Text.quote name
  | .invalidRealmName name => "invalid realm name " ++ Text.quote name
  | .realmRedefined name => "realm " ++ Text.quote name ++ " is already defined"
  | .realmExtendsItself => "a realm can't extend itself"
  | .rootRealmExtends => "the root realm must not use `extends`"
  | .realmUndefined name => "realm " ++ Text.quote name ++ " is not defined"
  | .emptyServiceName => "service name must not be empty"
  | .malformedPrincipal name =>
      "principal " ++ Text.quote name ++ " must have form <kind>:<value>"
  | .emptyCondition => "empty condition"
  | .emptyAttribute => "attribute must not be empty"
  | .attributeNotAllowed name =>
      "attribute " ++ Text.quote name ++ " can't be used in conditions"
  | .noValues => "at least one value is required"
  | .realmCycle cycle => "realms form a cycle: " ++ " -> ".intercalate cycle

/-- A broken rule and where it is broken. -/
structure Violation where
  path : Path
  issue : Issue
  deriving Repr, DecidableEq

/-- The text of a violation: its path, a colon, and the wording of its issue. -/
def Violation.message (v : Violation) : String :=
  Path.render v.path ++ ": " ++ v.issue.detail

/-! ## Errors of expansion

Expansion refuses a configuration that the checks refuse, and fails on what checked
configurations never hold: a role that is unknown or has no known prefix, a realm that is not
defined, a condition slot that was never registered or is empty, or inheritance that runs in a
cycle. Every failure but the refusal is fatal: it means the checks were skipped or the registry
changed.
-/

/-- The place of a condition in the working realm list: the realm, the binding within it, and
the condition within the binding, each a 32-bit number. -/
structure Slot where
  realm : UInt32
  binding : UInt32
  position : UInt32
  deriving Repr, DecidableEq

/-- The slot of condition `p` of binding `b` of realm `r`, each position cut to 32 bits: past
`2 ^ 32 - 1` a position wraps, and two conditions can share a slot. -/
def Slot.ofIndices (r b p : Nat) : Slot :=
  ⟨r.toUInt32, b.toUInt32, p.toUInt32⟩

/-- How a slot is named in messages. -/
def Slot.describe (slot : Slot) : String :=
  "realm #" ++ toString slot.realm ++ " binding #" ++ toString slot.binding ++ " condition #" ++
    toString slot.position

/-- The two kinds of inheritance. -/
inductive Chain where
  | realm
  | role
  deriving Repr, DecidableEq

/-- How a kind of inheritance is named in messages. -/
def Chain.name : Chain → String
  | .realm => "realm"
  | .role => "role"

/-- Why an expansion failed. -/
inductive ExpandError where
  /-- The configuration breaks a rule of the checks. -/
  | invalid (violation : Violation)
  /-- A role is neither in the registry nor among the custom roles. -/
  | unknownRole (name : String)
  /-- A role name has neither the built-in nor the custom prefix. -/
  | invalidRole (name : String)
  /-- A realm is not in the working realm list. -/
  | unknownRealm (name : String)
  /-- A condition slot was never registered. -/
  | unknownCondition (slot : Slot)
  /-- A condition slot holds an empty condition. -/
  | emptyCondition (slot : Slot)
  /-- Inheritance of the given kind returns to `name`, or runs deeper than there are realms. -/
  | cycle (chain : Chain) (name : String)
  deriving Repr, DecidableEq

/-- The wording of an expansion error. -/
def ExpandError.message : ExpandError → String
  | .invalid violation => "invalid realms config: " ++ violation.message
  | .unknownRole name => "unknown role: " ++ name
  | .invalidRole name => "role " ++ name ++ " has neither a built-in nor a custom role prefix"
  | .unknownRealm name => "unknown realm: " ++ name
  | .unknownCondition slot =>
      "condition at " ++ slot.describe ++ " was never added to the condition set"
  | .emptyCondition slot => "invalid empty condition at " ++ slot.describe
  | .cycle chain name => chain.name ++ " inheritance cycle or chain too deep at " ++ name

/-- Whether an error means a broken contract rather than a refused configuration. -/
def ExpandError.isFatal : ExpandError → Bool
  | .invalid _ => false
  | _ => true

end RealmAccess
