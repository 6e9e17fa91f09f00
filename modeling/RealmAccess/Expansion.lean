import RealmAccess.Expansion.Walker
import RealmAccess.Validation
import RealmAccess.Config.Json
/-!
# Expansion

A project's configuration expanded into a flat, canonical table: the walked grants compacted
into bindings, the table itself, and its JSON form.
-/

/-! ## Compacting grants

A walk lists a principal once for every binding and path that reaches it. Compaction turns the
list into few bindings in two passes: first the permissions of each principal under the same
conditions are joined, then principals with the same joined permissions under the same
conditions share one binding. The passes cannot be swapped: permissions must be complete before
they are compared.

The result is canonical: every list in a binding is sorted, and bindings are sorted by their
permissions, then conditions, then principals.
-/

namespace RealmAccess

/-- Principals granted `permissions` when all `conditions` hold. -/
structure BindingRecord where
  permissions : List Nat
  principals : List String
  conditions : List Nat
  deriving Repr, DecidableEq, Inhabited

/-- The order of bindings: by permissions, then conditions, then principals. -/
def BindingRecord.compare (a b : BindingRecord) : Ordering :=
  match Order.compareLex Ord.compare a.permissions b.permissions with
  | .eq =>
      match Order.compareLex Ord.compare a.conditions b.conditions with
      | .eq => Order.compareLex Ord.compare a.principals b.principals
      | other => other
  | other => other

/-- Bindings in their order. -/
def BindingRecord.sortAll (records : List BindingRecord) : List BindingRecord :=
  records.mergeSort fun a b => a.compare b != .gt

/-- Adds `values` to the entry of `key`, making the entry if there is none. -/
def addToEntry {κ ν : Type} [DecidableEq κ] (entries : List (κ × List ν)) (key : κ)
    (values : List ν) : List (κ × List ν) :=
  if entries.any (·.1 = key) then
    entries.map fun entry => if entry.1 = key then (entry.1, entry.2 ++ values) else entry
  else entries ++ [(key, values)]

/-- The first pass: the permissions of each principal under each list of conditions, joined. -/
def joinByPrincipal (grants : List Grant) : List ((String × List Nat) × List Nat) :=
  grants.foldl (fun entries grant =>
    addToEntry entries (grant.principal, grant.conditions) grant.permissions) []

/-- The second pass: the principals of each joined permission set under each list of
conditions. -/
def groupByPermissions (joined : List ((String × List Nat) × List Nat)) :
    List ((List Nat × List Nat) × List String) :=
  joined.foldl (fun entries entry =>
    addToEntry entries (Order.sortNats entry.2, entry.1.2) [entry.1.1]) []

/-- Compacts grants into canonical bindings. -/
def compact (grants : List Grant) : List BindingRecord :=
  BindingRecord.sortAll <| (groupByPermissions (joinByPrincipal grants)).map fun entry =>
    { permissions := entry.1.1, principals := Order.sortStrings entry.2,
      conditions := entry.1.2 }

/-- Compacts the grants of a walk, or gives the error that ended it. -/
def Trace.compact (trace : Trace) : Except ExpandError (List BindingRecord) :=
  match trace.stop with
  | some e => .error e
  | none => .ok (RealmAccess.compact trace.grants)

/-- A binding with its permission numbers taken to their positions in sorted order. -/
def BindingRecord.renumber (sorted : SortedNames) (record : BindingRecord) :
    BindingRecord :=
  { permissions := (record.permissions.map sorted.remap).mergeSort fun a b => decide (a ≤ b)
    principals := Order.sortStrings record.principals
    conditions := record.conditions }

/-- Bindings renumbered to sorted permission positions, in their order. -/
def BindingRecord.renumberAll (sorted : SortedNames) (records : List BindingRecord) :
    List BindingRecord :=
  BindingRecord.sortAll (records.map (BindingRecord.renumber sorted))

/-! ## Expanding a configuration

Expansion turns a project's configuration into a flat table: every realm of the working realm
list, named `<project>:<realm>`, with the bindings it holds and inherits, compacted, and the
services that enforce it. Permissions and conditions in bindings are positions in two global
lists, the permissions sorted and the conditions sorted by attribute and values, each holding
exactly what some binding uses.

The steps are: build the working realm list, the implicit root bindings added unless the
project is internal; register every condition slot and sort the conditions; then, realm by
realm in name order, walk and compact its grants and find its services; last, sort the
permissions and renumber the bindings. `Config.expand` checks the configuration first.
-/

/-- An expanded realm: its bindings and, if any, the services that enforce it. -/
structure RealmRecord where
  name : String
  bindings : List BindingRecord
  services : Option (List String)
  deriving Repr, Inhabited

/-- The expansion of a project: the permission and condition lists that bindings point into,
and the expanded realms in name order. -/
structure Expansion where
  permissions : List String
  conditions : List Restriction
  realms : List RealmRecord
  deriving Repr, Inhabited

/-- Registers the conditions of every slot, in order. -/
def ConditionTable.addAll (table : ConditionTable) :
    List (Slot × Condition) → Except ExpandError ConditionTable
  | [] => .ok table
  | (slot, condition) :: more =>
      match table.add slot condition with
      | .ok (_, table') => table'.addAll more
      | .error e => .error e

/-- The compacted bindings and the services of each realm, walked in order. -/
def Walker.expandRealms (walker : Walker) :
    List Realm → WalkM (List (String × List BindingRecord × Option (List String)))
  | [] => pure []
  | realm :: more => do
      let trace ← (walker.walk realm.name none : StateM WalkMemo Trace)
      let bindings ← (trace.compact : Except ExpandError (List BindingRecord))
      let services ← walker.services realm.name
      let rest ← walker.expandRealms more
      pure ((realm.name, bindings, services) :: rest)

/-- Expands a configuration without checking it. -/
def Config.expandUnchecked (config : Config) (registry : Registry) (project : String) :
    Except ExpandError Expansion := do
  let implicit := if project = internalProject then [] else registry.implicitBindings project
  let graph := RealmGraph.build config implicit
  let table ← ({} : ConditionTable).addAll graph.slots
  let (index, conditions) := table.finalize
  let walker : Walker :=
    { graph := graph, source := ⟨registry, config.customRoles⟩, conditions := index }
  let (outcome, memo) := (walker.expandRealms graph.realms).run.run {}
  let expanded ← outcome
  let sorted := memo.roles.table.sorted
  return {
    permissions := sorted.names
    conditions := conditions
    realms := expanded.map fun (name, bindings, services) =>
      { name := project ++ ":" ++ name
        bindings := BindingRecord.renumberAll sorted bindings
        services := services } }

/-- Checks a configuration, internal roles allowed only for the internal project, and expands
it. -/
def Config.expand (config : Config) (registry : Registry) (project : String) :
    Except ExpandError Expansion :=
  match config.validate registry (project = internalProject) with
  | .error violation => .error (.invalid violation)
  | .ok () => config.expandUnchecked registry project

/-! ## Reading an expansion

An expansion is read back from JSON the way it is written: every field must be given, except a
realm's data, which may be left out or `null` when no service enforces the realm. Permission and
condition numbers are read as `u32`s. As for configurations, a record may also be an array of
its fields in order, and keys that name no field are skipped.
-/

open Json

variable (format : Format)

/-- Reads a condition of the condition list: its attribute and its values, both required. -/
def Restriction.normalizedDecoder : format.Reader Restriction :=
  format.record "struct NormalizedCondition"
    [ format.required "attribute" format.string fun v r => { r with attributeName := v },
      format.required "values" format.strings fun v r => { r with values := v } ]
    { attributeName := "" }

/-- Reads a binding record. -/
def BindingRecord.decoder : format.Reader BindingRecord :=
  format.record "struct BindingRecord"
    [ format.required "permissions" (format.list format.u32)
        fun v b => { b with permissions := v },
      format.required "principals" format.strings fun v b => { b with principals := v },
      format.required "conditions" (format.list format.u32)
        fun v b => { b with conditions := v } ]
    { permissions := [], principals := [], conditions := [] }

/-- Reads the data of a realm: the services that enforce it. -/
def RealmRecord.servicesDecoder : format.Reader (List String) :=
  format.record "struct RealmData"
    [ format.required "enforceInService" format.strings fun v _ => v ] []

/-- Reads a realm record; data left out or `null` leaves it without services. -/
def RealmRecord.decoder : format.Reader RealmRecord :=
  format.record "struct RealmRecord"
    [ format.required "name" format.string fun v r => { r with name := v },
      format.required "bindings" (format.list (BindingRecord.decoder format))
        fun v r => { r with bindings := v },
      format.withDefault "data" (format.option (RealmRecord.servicesDecoder format))
        fun v r => { r with services := v } ]
    { name := "", bindings := [], services := none }

/-- Reads an expansion. -/
def Expansion.decoder : format.Reader Expansion :=
  format.record "struct ExpandedRealms"
    [ format.required "permissions" format.strings fun v e => { e with permissions := v },
      format.required "conditions" (format.list (Restriction.normalizedDecoder format))
        fun v e => { e with conditions := v },
      format.required "realms" (format.list (RealmRecord.decoder format))
        fun v e => { e with realms := v } ]
    { permissions := [], conditions := [], realms := [] }

/-- The expansion written in a JSON text. -/
def Expansion.ofJson (text : String) : Except Json.Error Expansion :=
  defaultFormat.parse (Expansion.decoder defaultFormat) text

/-! ## Writing an expansion

An expansion is written as JSON: the permission list, the condition list (each condition as its
attribute and values), and the realms, each with its name, its bindings and, only when some
service enforces it, its data.
-/

open Json

/-- A binding as JSON. -/
def BindingRecord.toValue (record : BindingRecord) : Value :=
  .object [("permissions", .numbers record.permissions),
    ("principals", .strings record.principals), ("conditions", .numbers record.conditions)]

/-- A realm as JSON; the data is left out when no service enforces the realm. -/
def RealmRecord.toValue (record : RealmRecord) : Value :=
  let data :=
    match record.services with
    | some services => [("data", Value.object [("enforceInService", .strings services)])]
    | none => []
  .object ([("name", .str record.name),
    ("bindings", .array (record.bindings.map BindingRecord.toValue))] ++ data)

/-- An expansion as JSON. -/
def Expansion.toValue (expansion : Expansion) : Value :=
  .object [("permissions", .strings expansion.permissions),
    ("conditions", .array (expansion.conditions.map Restriction.toValue)),
    ("realms", .array (expansion.realms.map RealmRecord.toValue))]

end RealmAccess
