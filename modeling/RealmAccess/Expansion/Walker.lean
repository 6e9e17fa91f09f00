import RealmAccess.Error
import RealmAccess.Config.Basic
import RealmAccess.Expansion.Roles
import RealmAccess.Expansion.Numbering
/-!
# Walking the realms

The working realm list that expansion walks, and the walk itself: the grants a realm holds and
inherits, and the services that enforce it.
-/

/-! ## The working realm list

Expansion works on the realms of a configuration with one realm per name, the last declared of
each name, sorted by name. The root realm is always present, made empty if the configuration
has none, and the implicit root bindings follow its own bindings.

Every realm but the root inherits from the root first, then from the realms it extends, in
declaration order, repeats kept; the root inherits from nothing, whatever it says.
-/

namespace RealmAccess

/-- The working realm list: realms with distinct names, sorted by name. -/
structure RealmGraph where
  realms : List Realm
  deriving Repr, Inhabited

/-- The realms of a list that no later realm of the list replaces. -/
def lastOfEachName : List Realm → List Realm
  | [] => []
  | realm :: more =>
      if more.any (·.name == realm.name) then lastOfEachName more
      else realm :: lastOfEachName more

namespace RealmGraph

/-- The working realm list of a configuration, with `implicit` bindings added to the root. -/
def build (config : Config) (implicit : List Binding) : RealmGraph :=
  let unique := lastOfEachName config.realms
  let withRoot :=
    if unique.any (·.name == rootRealm) then unique else unique ++ [{ name := rootRealm }]
  let extended := withRoot.map fun realm =>
    if realm.name = rootRealm then { realm with bindings := realm.bindings ++ implicit }
    else realm
  { realms := extended.mergeSort fun a b => decide (a.name ≤ b.name) }

/-- How many realms there are. -/
def size (graph : RealmGraph) : Nat :=
  graph.realms.length

/-- The realm names in order. -/
def names (graph : RealmGraph) : List String :=
  graph.realms.map (·.name)

/-- The position of a realm. -/
def position (graph : RealmGraph) (name : String) : Except ExpandError Nat :=
  match graph.realms.findIdx? (·.name == name) with
  | some index => .ok index
  | none => .error (.unknownRealm name)

/-- The realm of a name. -/
def realm? (graph : RealmGraph) (name : String) : Option Realm :=
  graph.realms.find? (·.name == name)

theorem mem_names_of_realm? {graph : RealmGraph} {name : String} {realm : Realm}
    (found : graph.realm? name = some realm) : name ∈ graph.names := by
  unfold realm? at found
  have inRealms : realm ∈ graph.realms := List.mem_of_find?_eq_some found
  have sameName : realm.name = name := by
    have := List.find?_some found
    simpa using this
  exact List.mem_map.mpr ⟨realm, inRealms, sameName⟩

/-- The names a realm inherits from: the root first, unless it is the root, then the realms it
extends other than the root. -/
def parentNames (realm : Realm) : List String :=
  if realm.name = rootRealm then [] else rootRealm :: realm.parents.filter (· ≠ rootRealm)

/-- The positions of the realms a realm inherits from; the first missing one is an unknown
realm. -/
def parentPositions (graph : RealmGraph) (realm : Realm) : Except ExpandError (List Nat) :=
  (parentNames realm).mapM graph.position

/-- Every condition slot with its condition, by realm, then binding, then position; the slot is
built from the three positions as `Slot.ofIndices` cuts them. -/
def slots (graph : RealmGraph) : List (Slot × Condition) :=
  graph.realms.zipIdx.flatMap fun (realm, r) =>
    realm.bindings.zipIdx.flatMap fun (binding, b) =>
      binding.conditions.zipIdx.map fun (condition, p) => (Slot.ofIndices r b p, condition)

end RealmGraph

/-! ## Walking the realm graph

A realm holds its own bindings and everything it inherits. A walk from a realm lists, depth
first, one `Grant` for each principal of each binding of the realm, then walks each realm it
inherits from, in order. A realm reached along two paths is walked twice; compaction merges the
repeats later.

Every binding is granted when the walk reaches it, principals or not: its role is resolved and
its conditions looked up, and a failure ends the walk there. A realm whose parents are not all
known ends the walk after its own bindings. A path longer than there are realms must run in a
cycle; the walk ends there with a realm cycle naming the realm it reached.

A walk may be given room for a number of grants. It then does the work of the grants that fit
and nothing after them: a binding past the last of them is not granted and its role is not
resolved, so what the walker learns is what the shorter walk needed.

The walk is handed out one item at a time by an iterator that keeps the realms still to visit
on an explicit stack, each with its depth, the next one on top. Each turn of its loop hands out
a principal of the binding last granted, grants the next binding of the realm being visited,
pushes the parents of a realm whose bindings are done (the first parent on top), or takes the
next realm off the stack; after an error it hands out nothing more. `walkFrom` is the same walk
read as a recursion over the realm graph.

The services that enforce a realm are its own and those of every realm it inherits from,
sorted and each once; no service at all is `none`.
-/

/-- One principal's share of a binding: its permissions and the conditions that must hold. -/
structure Grant where
  principal : String
  permissions : List Nat
  conditions : List Nat
  deriving Repr, DecidableEq, Inhabited

/-- The grants of a walk in order, and the error that ended it early, if one did. -/
structure Trace where
  grants : List Grant := []
  stop : Option ExpandError := none
  deriving Repr, Inhabited

/-- One trace followed by another, unless the first ended early. -/
def Trace.andThen (first second : Trace) : Trace :=
  match first.stop with
  | some _ => first
  | none => { grants := first.grants ++ second.grants, stop := second.stop }

/-- The grants of a stream up to its first error, and that error. -/
def Trace.ofStream : List (Except ExpandError Grant) → Trace
  | [] => {}
  | .error e :: _ => { stop := some e }
  | .ok grant :: more =>
      let rest := Trace.ofStream more
      { rest with grants := grant :: rest.grants }

/-- What a walker keeps between walks: the role memo, and the services of each realm whose
services are known. -/
structure WalkMemo where
  roles : RoleMemo := {}
  services : List (String × Option (List String)) := []
  deriving Repr, Inhabited

/-- A step of a walker: it may fail, and what it learned before failing is kept. -/
abbrev WalkM := ExceptT ExpandError (StateM WalkMemo)

/-- A walker over a working realm list, with the roles and final condition numbers it grants
by. -/
structure Walker where
  graph : RealmGraph
  source : RoleSource
  conditions : ConditionIndex

namespace Walker

/-- Runs a step of role resolution on the walker's role memo. -/
def resolving {α : Type} (step : ResolveM α) : WalkM α :=
  ExceptT.mk fun memo =>
    let (answer, roles) := step.run.run memo.roles
    (answer, { memo with roles := roles })

/-- The permissions and conditions of binding `b` of realm `r`. -/
def grant (walker : Walker) (r b : Nat) (binding : Binding) : WalkM (List Nat × List Nat) := do
  let permissions ← resolving (walker.source.resolve binding.role)
  let slots := (List.range binding.conditions.length).map (Slot.ofIndices r b)
  let conditions ← liftExcept (walker.conditions.indexes slots)
  return (permissions, conditions)
where
  liftExcept {α : Type} : Except ExpandError α → WalkM α
    | .ok a => pure a
    | .error e => throw e

/-- How many more grants a walk may produce: `some n` for at most `n`, `none` for no limit. -/
abbrev Room := Option Nat

/-- Whether no more grants fit. -/
def Room.isFull : Room → Bool
  | some 0 => true
  | _ => false

/-- The room left after `used` more grants. -/
def Room.after (room : Room) (used : Nat) : Room :=
  room.map (· - used)

/-- As many of `items` as fit. -/
def Room.fit {α : Type} (room : Room) (items : List α) : List α :=
  match room with
  | some n => items.take n
  | none => items

/-- The grants of the bindings of realm `r`, numbered from their positions, as far as they fit
in `room`. A binding is granted only when there is room left as it is reached, and nothing is
done once the room is full. -/
def bindingGrants (walker : Walker) (r : Nat) (room : Room) :
    List (Binding × Nat) → StateM WalkMemo Trace
  | [] => pure {}
  | (binding, b) :: more =>
      if room.isFull then pure {}
      else do
        match ← (walker.grant r b binding).run with
        | .error e => pure { stop := some e }
        | .ok (permissions, conditions) =>
            let shown := room.fit
              (binding.principals.map fun principal => ⟨principal, permissions, conditions⟩)
            let rest ← walker.bindingGrants r (room.after shown.length) more
            pure (({ grants := shown } : Trace).andThen rest)

set_option linter.unusedVariables false in
/-- The walk from the realm at position `r`, reached along a path of `depth` steps, with `room`
for its grants. A walk with no room left does nothing at all, not even look at the realm. -/
def walkFrom (walker : Walker) (r : Nat) (depth : Nat) (room : Room) :
    StateM WalkMemo Trace :=
  if room.isFull then pure {}
  else if deep : walker.graph.size ≤ depth then
    let name := ((walker.graph.realms[r]?).map (·.name)).getD ""
    pure { stop := some (.cycle .realm name) }
  else
    match walker.graph.realms[r]? with
    | none => pure {}
    | some realm => do
        let own ← walker.bindingGrants r room realm.bindings.zipIdx
        if own.stop.isSome || (room.after own.grants.length).isFull then return own
        match walker.graph.parentPositions realm with
        | .error e => return own.andThen { stop := some e }
        | .ok parents =>
            List.foldlM
              (fun trace parent =>
                if trace.stop.isSome || (room.after trace.grants.length).isFull then pure trace
                else do
                  let next ← walker.walkFrom parent (depth + 1) (room.after trace.grants.length)
                  pure (trace.andThen next))
              own parents
termination_by walker.graph.size - depth

end Walker

/-- The binding being handed out: its principals still to come, and what its grant gave. -/
structure ActiveBinding where
  principals : List String
  permissions : List Nat
  conditions : List Nat
  deriving Repr, Inhabited

/-- The realm being visited: its position, the realm, the depth it was reached at, and its
bindings still to grant, with their positions. -/
structure RealmCursor where
  position : Nat
  realm : Realm
  depth : Nat
  pending : List (Binding × Nat)
  deriving Repr, Inhabited

/-- The state of a walk iterator: the realms still to visit with their depths, the next one
first; the realm being visited; the binding being handed out; and whether it failed. -/
structure WalkCursor where
  stack : List (Nat × Nat)
  visiting : Option RealmCursor := none
  active : Option ActiveBinding := none
  failed : Bool := false
  deriving Repr, Inhabited

/-- The iterator that walks from the realm at position `r`. -/
def WalkCursor.start (r : Nat) : WalkCursor :=
  { stack := [(r, 0)] }

/-- What one turn of the iterator's loop did: hand out an item, move on without one, or find
nothing left to do. -/
inductive Turn where
  | yield (item : Except ExpandError Grant) (next : WalkCursor)
  | pass (next : WalkCursor)
  | finish

/-- The iterator after a turn, unless nothing was left. -/
def Turn.next? : Turn → Option WalkCursor
  | .yield _ next => some next
  | .pass next => some next
  | .finish => none

namespace Walker

/-- One turn of the iterator's loop. -/
def turn (walker : Walker) (cursor : WalkCursor) : StateM WalkMemo Turn :=
  match cursor.active, cursor.visiting, cursor.stack with
  | some active, _, _ =>
      match active.principals with
      | principal :: more =>
          pure (.yield (.ok ⟨principal, active.permissions, active.conditions⟩)
            { cursor with active := some { active with principals := more } })
      | [] => pure (.pass { cursor with active := none })
  | none, some visiting, _ =>
      match visiting.pending with
      | (binding, b) :: more => do
          let rest := { cursor with visiting := some { visiting with pending := more } }
          match ← (walker.grant visiting.position b binding).run with
          | .ok (permissions, conditions) =>
              pure (.pass
                { rest with active := some ⟨binding.principals, permissions, conditions⟩ })
          | .error e => pure (.yield (.error e) { rest with failed := true })
      | [] =>
          match walker.graph.parentPositions visiting.realm with
          | .ok parents =>
              pure (.pass { cursor with
                stack := parents.map (fun p => (p, visiting.depth + 1)) ++ cursor.stack
                visiting := none })
          | .error e => pure (.yield (.error e) { cursor with visiting := none, failed := true })
  | none, none, [] => pure .finish
  | none, none, (r, depth) :: more =>
      if walker.graph.size ≤ depth then
        let name := ((walker.graph.realms[r]?).map (·.name)).getD ""
        pure (.yield (.error (.cycle .realm name)) { cursor with stack := more, failed := true })
      else
        match walker.graph.realms[r]? with
        | none => pure (.pass { cursor with stack := more })
        | some realm =>
            pure (.pass { cursor with
              stack := more
              visiting := some ⟨r, realm, depth, realm.bindings.zipIdx⟩ })

/-! The iterator's loop ends: every turn that leaves it running lowers a bound on the turns still
to come. -/

/-- The sum of a list of costs. -/
def sumCosts (costs : List Nat) : Nat :=
  costs.foldr (· + ·) 0

theorem sumCosts_cons (c : Nat) (cs : List Nat) : sumCosts (c :: cs) = c + sumCosts cs := rfl

theorem sumCosts_append (xs ys : List Nat) : sumCosts (xs ++ ys) = sumCosts xs + sumCosts ys := by
  induction xs with
  | nil => simp [sumCosts]
  | cons x more ih => rw [List.cons_append, sumCosts_cons, sumCosts_cons, ih, Nat.add_assoc]

/-- The turns bindings still to grant take: one to grant each, one for each of its principals,
and one to drop it. -/
def pendingCost (pending : List (Binding × Nat)) : Nat :=
  sumCosts (pending.map fun item => item.1.principals.length + 2)

set_option linter.unusedVariables false in
/-- A bound on the turns the walk from the realm at `r`, reached at `depth`, takes. -/
def realmCost (walker : Walker) (r depth : Nat) : Nat :=
  if deep : walker.graph.size ≤ depth then 1
  else
    match walker.graph.realms[r]? with
    | none => 1
    | some realm =>
        pendingCost realm.bindings.zipIdx + 2 +
          match walker.graph.parentPositions realm with
          | .ok parents => sumCosts (parents.map fun p => walker.realmCost p (depth + 1))
          | .error _ => 0
termination_by walker.graph.size - depth
decreasing_by omega

/-- A bound on the turns the walks from the parents of a realm take. -/
def parentsCost (walker : Walker) (realm : Realm) (depth : Nat) : Nat :=
  match walker.graph.parentPositions realm with
  | .ok parents => sumCosts (parents.map fun p => walker.realmCost p (depth + 1))
  | .error _ => 0

/-- A bound on the turns an iterator has still to take. -/
def cost (walker : Walker) (cursor : WalkCursor) : Nat :=
  (match cursor.active with
    | some active => active.principals.length + 1
    | none => 0) +
  (match cursor.visiting with
    | some visiting =>
        pendingCost visiting.pending + 1 + walker.parentsCost visiting.realm visiting.depth
    | none => 0) +
  sumCosts (cursor.stack.map fun entry => walker.realmCost entry.1 entry.2)

theorem realmCost_of_realm (walker : Walker) {r depth : Nat} {realm : Realm}
    (notDeep : ¬ walker.graph.size ≤ depth) (found : walker.graph.realms[r]? = some realm) :
    walker.realmCost r depth =
      pendingCost realm.bindings.zipIdx + 2 + walker.parentsCost realm depth := by
  rw [realmCost]
  simp only [notDeep, dite_false, found, parentsCost]

theorem one_le_realmCost (walker : Walker) (r depth : Nat) : 1 ≤ walker.realmCost r depth := by
  rw [realmCost]
  split
  · exact Nat.le_refl 1
  · split <;> omega

theorem cost_turn (walker : Walker) {cursor : WalkCursor} {memo memo' : WalkMemo} {result : Turn}
    (turned : (walker.turn cursor).run memo = (result, memo')) {next : WalkCursor}
    (moved : result.next? = some next) : walker.cost next < walker.cost cursor := by
  rcases cursor with ⟨stack, visiting, active, failed⟩
  rcases active with _ | ⟨principals, permissions, conditions⟩
  · rcases visiting with _ | ⟨position, realm, depth, pending⟩
    · rcases stack with _ | ⟨⟨r, depth⟩, more⟩
      · simp only [turn] at turned
        cases turned
        cases moved
      · have first := walker.one_le_realmCost r depth
        simp only [turn] at turned
        split at turned
        · cases turned
          cases moved
          simp only [cost, List.map_cons, sumCosts_cons]
          omega
        · next notDeep =>
          split at turned
          · cases turned
            cases moved
            simp only [cost, List.map_cons, sumCosts_cons]
            omega
          · next found =>
            cases turned
            cases moved
            simp only [cost, List.map_cons, sumCosts_cons, walker.realmCost_of_realm notDeep found]
            omega
    · rcases pending with _ | ⟨⟨binding, b⟩, more⟩
      · simp only [turn] at turned
        split at turned
        · cases turned
          cases moved
          simp only [cost, parentsCost, *, List.map_append, sumCosts_append, List.map_map]
          simp only [Function.comp_def]
          omega
        · cases turned
          cases moved
          simp only [cost]
          omega
      · simp only [turn, StateT.run_bind] at turned
        rcases granted : (walker.grant position b binding).run.run memo with
          ⟨answer, afterGrant⟩
        rw [granted] at turned
        cases answer with
        | ok pair =>
            cases turned
            cases moved
            simp only [cost, pendingCost, List.map_cons, sumCosts_cons]
            omega
        | error e =>
            cases turned
            cases moved
            simp only [cost, pendingCost, List.map_cons, sumCosts_cons]
            omega
  · rcases principals with _ | ⟨principal, more⟩
    · simp only [turn] at turned
      cases turned
      cases moved
      simp only [cost]
      omega
    · simp only [turn] at turned
      cases turned
      cases moved
      simp only [cost, List.length_cons]
      omega

set_option linter.unusedVariables false in
/-- The next item of the iterator: turns of its loop until one hands out an item or finds
nothing left; a failed iterator hands out nothing. -/
def next (walker : Walker) (cursor : WalkCursor) :
    StateM WalkMemo (Option (Except ExpandError Grant) × WalkCursor) := fun memo =>
  if cursor.failed then ((none, cursor), memo)
  else
    match turned : (walker.turn cursor).run memo with
    | (.yield item next, memo') => ((some item, next), memo')
    | (.pass next, memo') => walker.next next memo'
    | (.finish, memo') => ((none, cursor), memo')
termination_by walker.cost cursor
decreasing_by exact walker.cost_turn turned rfl

theorem cost_next (walker : Walker) {cursor : WalkCursor} {memo memo' : WalkMemo}
    {item : Except ExpandError Grant} {next : WalkCursor}
    (pulled : (walker.next cursor).run memo = ((some item, next), memo')) :
    walker.cost next < walker.cost cursor := by
  induction cursor using (measure walker.cost).wf.induction generalizing memo with
  | h cursor ih =>
  rw [StateT.run, Walker.next] at pulled
  split at pulled
  · cases pulled
  · split at pulled
    · next turned =>
        cases pulled
        exact walker.cost_turn turned rfl
    · next following _ turned =>
        exact Nat.lt_trans (ih following (walker.cost_turn turned rfl) pulled)
          (walker.cost_turn turned rfl)
    · cases pulled

set_option linter.unusedVariables false in
/-- The items of an iterator, as many as fit in `room`, up to its first error. -/
def drain (walker : Walker) (room : Room) (cursor : WalkCursor) : StateM WalkMemo Trace :=
  fun memo =>
    if room.isFull then ({}, memo)
    else
      match pulled : (walker.next cursor).run memo with
      | ((some (.ok grant), next), memo') =>
          let (rest, memo'') := (walker.drain (room.after 1) next).run memo'
          ({ rest with grants := grant :: rest.grants }, memo'')
      | ((some (.error e), _), memo') => ({ stop := some e }, memo')
      | ((none, _), memo') => ({}, memo')
termination_by walker.cost cursor
decreasing_by exact walker.cost_next pulled

/-- The walk from a realm with `room` for its grants; an unknown realm gives no grants. -/
def walk (walker : Walker) (name : String) (room : Room) : StateM WalkMemo Trace :=
  match walker.graph.position name with
  | .error e => pure { stop := some e }
  | .ok r => walker.drain room (WalkCursor.start r)

/-- The remembered services of a realm, if known. -/
def knownServices (name : String) : WalkM (Option (Option (List String))) :=
  return (← get).services.lookup name

set_option linter.unusedVariables false in
/-- Finds the services of a realm and of everything it inherits from; `path` holds the realms
being visited around it, innermost first. -/
def visitServices (walker : Walker) (path : List String) (name : String) : WalkM Unit := do
  if (← knownServices name).isSome then return
  match found : walker.graph.realm? name with
  | none => throw (.unknownRealm name)
  | some realm =>
      let parents := RealmGraph.parentNames realm
      match parents.find? (fun parent => (walker.graph.realm? parent).isNone) with
      | some missing => throw (.unknownRealm missing)
      | none =>
          if onPath : name ∈ path then throw (.cycle .realm name)
          else
            for parent in parents do
              walker.visitServices (name :: path) parent
            let memo ← get
            let inherited := parents.flatMap fun parent =>
              match memo.services.lookup parent with
              | some (some services) => services
              | _ => []
            let services := Order.sortStrings (realm.enforceInService ++ inherited)
            let known := if services.isEmpty then none else some services
            modify fun memo => { memo with services := (name, known) :: memo.services }
termination_by Search.unvisited walker.graph.names path
decreasing_by exact Search.unvisited_cons_lt (RealmGraph.mem_names_of_realm? found) onPath

/-- The services that enforce a realm, inherited ones included; `none` when there are none. -/
def services (walker : Walker) (name : String) : WalkM (Option (List String)) := do
  if (walker.graph.realm? name).isNone then throw (.unknownRealm name)
  walker.visitServices [] name
  return ((← knownServices name).getD none)

/-- A question to a walker: the walk from a realm with room for some grants, or the services
of a realm. -/
inductive Query where
  | walk (realm : String) (room : Room)
  | services (realm : String)

/-- The answer to a query. -/
inductive Answer where
  | trace (trace : Trace)
  | services (result : Except ExpandError (Option (List String)))

/-- Answers queries in order on one memo. -/
def answerAll (walker : Walker) (memo : WalkMemo) : List Query → List Answer × WalkMemo
  | [] => ([], memo)
  | query :: more =>
      let (answer, memo) :=
        match query with
        | .walk realm room =>
            let (trace, memo) := (walker.walk realm room).run memo
            (Answer.trace trace, memo)
        | .services realm =>
            let (result, memo) := (walker.services realm).run.run memo
            (Answer.services result, memo)
      let (answers, memo) := walker.answerAll memo more
      (answer :: answers, memo)

end Walker

end RealmAccess
