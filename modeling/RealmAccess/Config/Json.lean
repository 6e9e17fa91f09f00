import RealmAccess.Config.Basic
import RealmAccess.Json.Format
/-!
# Configurations and registries as JSON

How a configuration is read from JSON and written back, and how a registry snapshot is read.
Every record is declared once over any JSON `Format`; `Config.ofJson` and `Registry.ofJson`
read with the one the program runs on.
-/

/-! ## Reading a configuration

A configuration is read from JSON. Every record is an object whose keys are its field names,
or an array of its fields in declaration order. Only a realm's name, a binding's role, a
restriction's attribute and a custom role's name must be given; every list defaults to empty
and a missing or `null` restriction leaves the condition empty. Keys that name no field are
skipped.

The records are declared over any JSON format; `Config.ofJson` reads with the one the program
runs on.
-/

namespace RealmAccess

open Json

variable (format : Format)

/-- Reads a restriction. -/
def Restriction.decoder : format.Reader Restriction :=
  format.record "struct AttributeRestriction"
    [ format.required "attribute" format.string fun v r => { r with attributeName := v },
      format.withDefault "values" format.strings fun v r => { r with values := v } ]
    { attributeName := "" }

/-- Reads a condition. -/
def Condition.decoder : format.Reader Condition :=
  format.record "struct Condition"
    [ format.withDefault "restrict" (format.option (Restriction.decoder format))
        fun v c => { c with restrict := v } ]
    {}

/-- Reads a binding. -/
def Binding.decoder : format.Reader Binding :=
  format.record "struct Binding"
    [ format.required "role" format.string fun v b => { b with role := v },
      format.withDefault "principals" format.strings fun v b => { b with principals := v },
      format.withDefault "conditions" (format.list (Condition.decoder format))
        fun v b => { b with conditions := v } ]
    { role := "" }

/-- Reads a realm. -/
def Realm.decoder : format.Reader Realm :=
  format.record "struct Realm"
    [ format.required "name" format.string fun v r => { r with name := v },
      format.withDefault "extends" format.strings fun v r => { r with parents := v },
      format.withDefault "bindings" (format.list (Binding.decoder format))
        fun v r => { r with bindings := v },
      format.withDefault "enforceInService" format.strings
        fun v r => { r with enforceInService := v } ]
    { name := "" }

/-- Reads a custom role. -/
def CustomRole.decoder : format.Reader CustomRole :=
  format.record "struct CustomRole"
    [ format.required "name" format.string fun v r => { r with name := v },
      format.withDefault "extends" format.strings fun v r => { r with parents := v },
      format.withDefault "permissions" format.strings fun v r => { r with permissions := v } ]
    { name := "" }

/-- Reads a configuration. -/
def Config.decoder : format.Reader Config :=
  format.record "struct RealmsConfig"
    [ format.withDefault "realms" (format.list (Realm.decoder format))
        fun v c => { c with realms := v },
      format.withDefault "customRoles" (format.list (CustomRole.decoder format))
        fun v c => { c with customRoles := v } ]
    {}

/-- The configuration written in a JSON text. -/
def Config.ofJson (text : String) : Except Json.Error Config :=
  defaultFormat.parse (Config.decoder defaultFormat) text

/-! ## Writing a configuration

A configuration is written as JSON with every field present, lists included when empty. A
condition without a restriction is written as the empty object; the decoder reads that back
as the same condition.
-/

open Json

/-- A restriction as JSON. -/
def Restriction.toValue (r : Restriction) : Value :=
  .object [("attribute", .str r.attributeName), ("values", .strings r.values)]

/-- A condition as JSON. -/
def Condition.toValue (c : Condition) : Value :=
  match c.restrict with
  | none => .object []
  | some r => .object [("restrict", r.toValue)]

/-- A binding as JSON. -/
def Binding.toValue (b : Binding) : Value :=
  .object [("role", .str b.role), ("principals", .strings b.principals),
    ("conditions", .array (b.conditions.map Condition.toValue))]

/-- A realm as JSON. -/
def Realm.toValue (r : Realm) : Value :=
  .object [("name", .str r.name), ("extends", .strings r.parents),
    ("bindings", .array (r.bindings.map Binding.toValue)),
    ("enforceInService", .strings r.enforceInService)]

/-- A custom role as JSON. -/
def CustomRole.toValue (r : CustomRole) : Value :=
  .object [("name", .str r.name), ("extends", .strings r.parents),
    ("permissions", .strings r.permissions)]

/-- A configuration as JSON. -/
def Config.toValue (c : Config) : Value :=
  .object [("realms", .array (c.realms.map Realm.toValue)),
    ("customRoles", .array (c.customRoles.map CustomRole.toValue))]

/-! ## Reading a registry

A registry is read from a JSON snapshot with four lists, each defaulting to empty: the
permissions, the built-in roles, the implicit root roles and the allowed attributes. Of two
definitions of one name in a list, the later wins.
-/

open Json

variable (format : Format)

/-- Reads a permission. -/
def PermissionDef.decoder : format.Reader PermissionDef :=
  format.record "struct PermissionDef"
    [ format.required "name" format.string fun v p => { p with name := v },
      format.withDefault "internal" format.bool fun v p => { p with internal := v } ]
    { name := "" }

/-- Reads a built-in role. -/
def RoleDef.decoder : format.Reader RoleDef :=
  format.record "struct RoleDef"
    [ format.required "name" format.string fun v r => { r with name := v },
      format.withDefault "permissions" format.strings fun v r => { r with permissions := v },
      format.withDefault "internal" format.bool fun v r => { r with internal := v } ]
    { name := "" }

/-- Reads a registry snapshot; definitions are stored newest first. -/
def Registry.decoder : format.Reader Registry :=
  format.record "struct DbSnapshot"
    [ format.withDefault "permissions" (format.list (PermissionDef.decoder format))
        fun v r => { r with permissions := v.reverse },
      format.withDefault "roles" (format.list (RoleDef.decoder format))
        fun v r => { r with roles := v.reverse },
      format.withDefault "implicitRootRoles" format.strings
        fun v r => { r with implicitRootRoles := v },
      format.withDefault "attributes" format.strings fun v r => { r with attributes := v } ]
    {}

/-- The registry written in a JSON snapshot text. -/
def Registry.ofJson (text : String) : Except Json.Error Registry :=
  defaultFormat.parse (Registry.decoder defaultFormat) text

end RealmAccess
