import RealmAccess.Proofs.Walk
/-!
# The iterator hands out the walk

The walk is produced by an iterator with an explicit stack (`Walker.drain`); the walk read as a
recursion over the realm graph is `Walker.walkFrom`. Both give the same items, with the same
effects on the memo in the same order, from every memo and with room for any number of items:
draining the iterator that starts at a realm is the walk from it (`drain_start`).

The proof gives every iterator the walk still ahead of it (`Walker.ahead`): the principals left
of the binding being handed out, then the bindings left of the realm being visited and the walks
from its parents, then the walks from the realms on the stack, in order. Pieces of a walk are
strung together by `chain`, which runs the second with the room the first left, unless the first
ended early or filled the room. Each turn of the iterator's loop hands out the first item of
the walk ahead, or leaves it as it is (`ahead_eq_turn`).
-/

namespace RealmAccess

namespace Trace

theorem empty_andThen (trace : Trace) : ({} : Trace).andThen trace = trace := by
  cases trace
  rfl

theorem andThen_empty (trace : Trace) : trace.andThen {} = trace := by
  unfold andThen
  split
  · rfl
  · next running =>
      cases trace
      simp_all

/-- A trace that ended early is not continued. -/
theorem stop_none_of_continues {trace : Trace} {full : Bool}
    (continues : (trace.stop.isSome || full) = false) : trace.stop = none := by
  simp only [Bool.or_eq_false_iff, Option.isSome_eq_false_iff, Option.isNone_iff_eq_none]
    at continues
  exact continues.1

end Trace

/-- The grants still to hand out for the binding being handed out. -/
def ActiveBinding.grants (active : ActiveBinding) : List Grant :=
  active.principals.map fun principal => ⟨principal, active.permissions, active.conditions⟩

namespace Walker

/-! ### Room and traces -/

namespace Room

theorem after_zero (room : Room) : room.after 0 = room := by
  cases room <;> rfl

theorem after_add (room : Room) (a b : Nat) : room.after (a + b) = (room.after a).after b := by
  cases room with
  | none => rfl
  | some n =>
      show some (n - (a + b)) = some (n - a - b)
      rw [Nat.sub_add_eq]

theorem fit_nil {α : Type} (room : Room) : room.fit ([] : List α) = [] := by
  cases room <;> simp [fit]

theorem fit_of_full {α : Type} {room : Room} (full : room.isFull = true) (items : List α) :
    room.fit items = [] := by
  cases room with
  | none => cases full
  | some n =>
      cases n with
      | zero => rfl
      | succ n => cases full

theorem fit_cons {α : Type} {room : Room} (notFull : room.isFull = false) (x : α) (xs : List α) :
    room.fit (x :: xs) = x :: (room.after 1).fit xs := by
  cases room with
  | none => rfl
  | some n =>
      cases n with
      | zero => cases notFull
      | succ n => rfl

end Room

/-! ### Stringing pieces of a walk together -/

@[simp] theorem run_pure_state {α : Type} (a : α) (memo : WalkMemo) :
    (pure a : StateM WalkMemo α).run memo = (a, memo) := rfl

theorem run_map_state {α β : Type} (f : α → β) {step : StateM WalkMemo α}
    {memo memo' : WalkMemo} {a : α} (ran : step.run memo = (a, memo')) :
    (f <$> step).run memo = (f a, memo') := by
  rw [StateT.run_map, ran]
  rfl

/-- Runs a piece of a walk, then another with the room the first left, unless the first ended
early or filled the room. -/
def chain (first second : Room → StateM WalkMemo Trace) (room : Room) :
    StateM WalkMemo Trace := do
  let trace ← first room
  if trace.stop.isSome || (room.after trace.grants.length).isFull then pure trace
  else do
    let rest ← second (room.after trace.grants.length)
    pure (trace.andThen rest)

/-- A piece of a walk that does nothing once the room is full. -/
def Idle (piece : Room → StateM WalkMemo Trace) : Prop :=
  ∀ room, room.isFull = true → piece room = pure {}

theorem run_chain (first second : Room → StateM WalkMemo Trace) (room : Room) (memo : WalkMemo) :
    (chain first second room).run memo =
      let (trace, memo') := (first room).run memo
      if trace.stop.isSome || (room.after trace.grants.length).isFull then (trace, memo')
      else
        let (rest, memo'') := (second (room.after trace.grants.length)).run memo'
        (trace.andThen rest, memo'') := by
  unfold chain
  rcases firstRan : (first room).run memo with ⟨trace, memo'⟩
  rw [run_bind_of_run_eq firstRan]
  dsimp only
  cases ended : (trace.stop.isSome || (room.after trace.grants.length).isFull)
  · rcases secondRan : (second (room.after trace.grants.length)).run memo' with ⟨rest, memo''⟩
    simp only [Bool.false_eq_true, ↓reduceIte]
    rw [run_bind_of_run_eq secondRan]
    rfl
  · simp only [↓reduceIte]
    rfl

theorem chain_assoc (first second third : Room → StateM WalkMemo Trace) :
    chain (chain first second) third = chain first (chain second third) := by
  funext room memo
  show (chain (chain first second) third room).run memo =
    (chain first (chain second third) room).run memo
  simp only [run_chain]
  rcases firstRan : (first room).run memo with ⟨trace, afterFirst⟩
  dsimp only
  cases firstEnded : (trace.stop.isSome || (room.after trace.grants.length).isFull)
  · have running := Trace.stop_none_of_continues firstEnded
    rcases secondRan : (second (room.after trace.grants.length)).run afterFirst with
      ⟨middle, afterSecond⟩
    simp only [Bool.false_eq_true, ↓reduceIte, Trace.andThen_of_stop_none middle running,
      List.length_append, Room.after_add]
    cases secondEnded :
        (middle.stop.isSome || ((room.after trace.grants.length).after middle.grants.length).isFull)
    · have middleRunning := Trace.stop_none_of_continues secondEnded
      rcases thirdRan : (third ((room.after trace.grants.length).after middle.grants.length)).run
          afterSecond with ⟨rest, afterThird⟩
      simp only [Bool.false_eq_true, ↓reduceIte, Trace.andThen, running, middleRunning,
        List.append_assoc]
    · simp only [↓reduceIte, Trace.andThen, running]
  · simp only [↓reduceIte, firstEnded]

/-- Nothing first, then a piece, is the piece, while there is room. -/
theorem chain_empty_left {second : Room → StateM WalkMemo Trace} {room : Room}
    (notFull : room.isFull = false) : chain (fun _ => pure {}) second room = second room := by
  apply StateT.ext
  intro memo
  rw [run_chain]
  rcases secondRan : (second room).run memo with ⟨rest, afterSecond⟩
  simp only [run_pure_state, List.length_nil, Room.after_zero, notFull, Option.isSome_none,
    Bool.or_false, Bool.false_eq_true, ↓reduceIte, secondRan, Trace.empty_andThen]

theorem chain_empty_left_of_idle {second : Room → StateM WalkMemo Trace} (idle : Idle second) :
    chain (fun _ => pure {}) second = second := by
  funext room
  cases full : room.isFull
  · exact chain_empty_left full
  · rw [idle room full]
    apply StateT.ext
    intro memo
    simp only [run_chain, run_pure_state, List.length_nil, Room.after_zero, full, Bool.or_true,
      ↓reduceIte]

theorem chain_empty_right (first : Room → StateM WalkMemo Trace) :
    chain first (fun _ => pure {}) = first := by
  funext room
  apply StateT.ext
  intro memo
  rw [run_chain]
  rcases firstRan : (first room).run memo with ⟨trace, afterFirst⟩
  dsimp only
  split
  · rfl
  · simp only [run_pure_state, Trace.andThen_empty]

/-- A piece that ended early is all that runs. -/
theorem chain_stopped {trace : Trace} (stopped : trace.stop.isSome = true)
    (second : Room → StateM WalkMemo Trace) (room : Room) :
    chain (fun _ => pure trace) second room = pure trace := by
  apply StateT.ext
  intro memo
  simp only [run_chain, run_pure_state, stopped, Bool.true_or, ↓reduceIte]

theorem chain_congr_first {first first' : Room → StateM WalkMemo Trace} {room : Room}
    (same : first room = first' room) (second : Room → StateM WalkMemo Trace) :
    chain first second room = chain first' second room := by
  unfold chain
  rw [same]

theorem chain_congr_pure {first : Room → StateM WalkMemo Trace} {room : Room} {own : Trace}
    (same : first room = pure own) (second : Room → StateM WalkMemo Trace) :
    chain first second room = chain (fun _ => pure own) second room :=
  chain_congr_first same second

/-- A chain runs its first piece, then goes on from what it gave. -/
theorem chain_eq_bind (first second : Room → StateM WalkMemo Trace) (room : Room) :
    chain first second room =
      first room >>= fun trace => chain (fun _ => pure trace) second room := by
  unfold chain
  simp only [pure_bind]

theorem chain_pure (own : Trace) (second : Room → StateM WalkMemo Trace) (room : Room) :
    chain (fun _ => pure own) second room =
      if own.stop.isSome || (room.after own.grants.length).isFull then pure own
      else second (room.after own.grants.length) >>= fun rest => pure (own.andThen rest) := by
  unfold chain
  simp only [pure_bind]

/-- A piece that does nothing on a full room needs no guard against one. -/
theorem chain_pure_of_idle {own : Trace} (running : own.stop = none)
    {second : Room → StateM WalkMemo Trace} (idle : Idle second) (room : Room) :
    chain (fun _ => pure own) second room =
      second (room.after own.grants.length) >>= fun rest => pure (own.andThen rest) := by
  rw [chain_pure]
  cases full : (room.after own.grants.length).isFull
  · simp only [running, Option.isSome_none, Bool.or_false, Bool.false_eq_true, ↓reduceIte]
  · simp only [running, Option.isSome_none, Bool.or_true, ↓reduceIte, idle _ full, pure_bind,
      Trace.andThen_empty]

/-- A grant handed out first is the first grant of the walk. -/
theorem chain_cons {grant : Grant} {grants : List Grant} {room : Room}
    (notFull : room.isFull = false) (second : Room → StateM WalkMemo Trace) :
    chain (fun room => pure { grants := room.fit (grant :: grants) }) second room =
      (fun rest => { rest with grants := grant :: rest.grants }) <$>
        chain (fun room => pure { grants := room.fit grants }) second (room.after 1) := by
  apply StateT.ext
  intro memo
  rcases shortRan : (chain (fun room => pure { grants := room.fit grants }) second
      (room.after 1)).run memo with ⟨short, afterShort⟩
  rw [run_map_state _ shortRan]
  rw [run_chain] at shortRan ⊢
  simp only [run_pure_state, Room.fit_cons notFull, List.length_cons, Option.isSome_none,
    Bool.false_or] at shortRan ⊢
  rw [Nat.add_comm, Room.after_add]
  split at shortRan
  · next full =>
      cases shortRan
      simp only [full, ↓reduceIte]
  · next roomy =>
      rcases secondRan : (second (((room.after 1).after ((room.after 1).fit grants).length))).run
          memo with ⟨rest, afterSecond⟩
      rw [secondRan] at shortRan
      cases shortRan
      simp only [roomy, Bool.false_eq_true, ↓reduceIte, Trace.andThen, List.cons_append]

/-! ### The walk as pieces -/

/-- The walks from the realms of a stack, in order, each from its own depth. -/
def walkStack (walker : Walker) : List (Nat × Nat) → Room → StateM WalkMemo Trace
  | [] => fun _ => pure {}
  | (r, depth) :: more => chain (walker.walkFrom r depth) (walker.walkStack more)

/-- The walks from the parents of a realm, one step deeper; a parent that is not known ends the
walk. -/
def walkParents (walker : Walker) (realm : Realm) (depth : Nat) (room : Room) :
    StateM WalkMemo Trace :=
  match walker.graph.parentPositions realm with
  | .error e => pure { stop := some e }
  | .ok parents => walker.walkStack (parents.map fun p => (p, depth + 1)) room

variable {walker : Walker}

theorem walkParents_error {realm : Realm} {e : ExpandError}
    (failed : walker.graph.parentPositions realm = .error e) (depth : Nat) :
    walker.walkParents realm depth = fun _ => pure { stop := some e } := by
  funext room
  simp only [walkParents, failed]

theorem walkParents_ok {realm : Realm} {parents : List Nat}
    (found : walker.graph.parentPositions realm = .ok parents) (depth : Nat) :
    walker.walkParents realm depth = walker.walkStack (parents.map fun p => (p, depth + 1)) := by
  funext room
  simp only [walkParents, found]

theorem idle_walkFrom (r depth : Nat) : Idle (walker.walkFrom r depth) := by
  intro room full
  rw [walkFrom]
  simp [full]

theorem idle_bindingGrants (r : Nat) (items : List (Binding × Nat)) :
    Idle fun room => walker.bindingGrants r room items := by
  intro room full
  cases items with
  | nil => rfl
  | cons item more =>
      obtain ⟨binding, b⟩ := item
      simp only [bindingGrants, full, ↓reduceIte]

theorem idle_chain {first : Room → StateM WalkMemo Trace} (idle : Idle first)
    (second : Room → StateM WalkMemo Trace) : Idle (chain first second) := by
  intro room full
  apply StateT.ext
  intro memo
  simp only [run_chain, idle room full, run_pure_state, List.length_nil, Room.after_zero, full,
    Bool.or_true, ↓reduceIte]

theorem idle_walkStack : ∀ stack, Idle (walker.walkStack stack)
  | [] => fun _ _ => rfl
  | (r, depth) :: more => idle_chain (idle_walkFrom r depth) (walker.walkStack more)

theorem walkStack_append (first : List (Nat × Nat)) (second : List (Nat × Nat)) :
    walker.walkStack (first ++ second) =
      chain (walker.walkStack first) (walker.walkStack second) := by
  induction first with
  | nil => exact (chain_empty_left_of_idle (idle_walkStack second)).symm
  | cons entry more ih =>
      obtain ⟨r, depth⟩ := entry
      rw [List.cons_append, walkStack, walkStack, ih, chain_assoc]

/-! ### The recursive walk as pieces -/

/-- The walk's loop over the parents of a realm is the walk of a stack of them. -/
theorem foldlM_walkFrom (room : Room) (depth : Nat) (parents : List Nat) (own : Trace) :
    parents.foldlM (fun trace parent =>
        if trace.stop.isSome || (room.after trace.grants.length).isFull then pure trace
        else do
          let next ← walker.walkFrom parent (depth + 1) (room.after trace.grants.length)
          pure (trace.andThen next)) own =
      chain (fun _ => pure own) (walker.walkStack (parents.map fun p => (p, depth + 1))) room := by
  induction parents generalizing own with
  | nil => rw [List.foldlM_nil, List.map_nil, walkStack, chain_empty_right]
  | cons parent more ih =>
      have first := (chain_pure own (walker.walkFrom parent (depth + 1)) room).symm
      simp only [List.foldlM_cons]
      rw [first]
      simp only [ih]
      rw [← chain_eq_bind (chain (fun _ => pure own) (walker.walkFrom parent (depth + 1))),
        chain_assoc, List.map_cons, walkStack]

/-- A realm found within the depth bound: its bindings, then the walks from its parents. -/
theorem walkFrom_found {r depth : Nat} {room : Room} {realm : Realm} (notFull : room.isFull = false)
    (shallow : ¬ walker.graph.size ≤ depth) (found : walker.graph.realms[r]? = some realm) :
    walker.walkFrom r depth room =
      chain (fun room => walker.bindingGrants r room realm.bindings.zipIdx)
        (walker.walkParents realm depth) room := by
  rw [walkFrom, chain_eq_bind]
  simp only [notFull, Bool.false_eq_true, ↓reduceIte, shallow, dite_false, found]
  congr 1
  funext own
  rw [chain_pure]
  split
  · rfl
  · rcases parentsFound : walker.graph.parentPositions realm with e | parents
    · simp only [walkParents, parentsFound, pure_bind]
    · simp only [walkParents, parentsFound]
      rw [foldlM_walkFrom, chain_pure]
      simp only [*, Bool.false_eq_true, ↓reduceIte]

/-- A binding is granted first; its principals, then the bindings after it. -/
theorem bindingGrants_cons {r : Nat} {room : Room} (notFull : room.isFull = false)
    (binding : Binding) (b : Nat) (more : List (Binding × Nat)) :
    walker.bindingGrants r room ((binding, b) :: more) =
      (walker.grant r b binding).run >>= fun
        | .error e => pure { stop := some e }
        | .ok (permissions, conditions) =>
            chain (fun room => pure { grants := room.fit (binding.principals.map
                fun principal => ⟨principal, permissions, conditions⟩) })
              (fun room => walker.bindingGrants r room more) room := by
  simp only [bindingGrants, notFull, Bool.false_eq_true, ↓reduceIte]
  congr 1
  funext answer
  rcases answer with e | ⟨permissions, conditions⟩
  · rfl
  · dsimp only
    rw [chain_eq_bind]
    simp only [pure_bind]
    rw [chain_pure_of_idle _ (idle_bindingGrants r more)]
    rfl

/-! ### The walk ahead of an iterator -/

/-- The walk still ahead of the realm being visited: its bindings left, then the walks from its
parents. -/
def aheadInRealm (walker : Walker) : Option RealmCursor → Room → StateM WalkMemo Trace
  | none => fun _ => pure {}
  | some visiting =>
      chain (fun room => walker.bindingGrants visiting.position room visiting.pending)
        (walker.walkParents visiting.realm visiting.depth)

/-- The walk still ahead of an iterator: the grants left of the binding being handed out, the
walk left of the realm being visited, then the walks from the realms on its stack. A failed
iterator has nothing ahead. -/
def ahead (walker : Walker) (cursor : WalkCursor) : Room → StateM WalkMemo Trace :=
  if cursor.failed then fun _ => pure {}
  else
    chain
      (fun room => pure { grants := room.fit ((cursor.active.map ActiveBinding.grants).getD []) })
      (chain (walker.aheadInRealm cursor.visiting) (walker.walkStack cursor.stack))

/-- The walk left after a turn, with the item the turn handed out in front of it. -/
def afterTurn (walker : Walker) (room : Room) : Turn → StateM WalkMemo Trace
  | .yield (.ok grant) next =>
      (fun rest => { rest with grants := grant :: rest.grants }) <$>
        walker.ahead next (room.after 1)
  | .yield (.error e) _ => pure { stop := some e }
  | .pass next => walker.ahead next room
  | .finish => pure {}

theorem idle_ahead (cursor : WalkCursor) : Idle (walker.ahead cursor) := by
  unfold ahead
  split
  · intro _ _
    rfl
  · apply idle_chain
    intro room full
    dsimp only
    rw [Room.fit_of_full full]

/-- With no binding being handed out, the walk ahead starts with the realm being visited. -/
theorem ahead_inactive {cursor : WalkCursor} (running : cursor.failed = false)
    (inactive : cursor.active = none) {room : Room} (notFull : room.isFull = false) :
    walker.ahead cursor room =
      chain (walker.aheadInRealm cursor.visiting) (walker.walkStack cursor.stack) room := by
  simp only [ahead, running, inactive, Bool.false_eq_true, ↓reduceIte, Option.map_none,
    Option.getD_none, Room.fit_nil]
  exact chain_empty_left notFull

/-- Between realms, the walk ahead is the walk of the stack. -/
theorem ahead_between_realms {cursor : WalkCursor} (running : cursor.failed = false)
    (inactive : cursor.active = none) (outside : cursor.visiting = none) {room : Room}
    (notFull : room.isFull = false) :
    walker.ahead cursor room = walker.walkStack cursor.stack room := by
  rw [ahead_inactive running inactive notFull, outside, aheadInRealm, chain_empty_left notFull]

/-- Each turn of the iterator's loop hands out the first item of the walk ahead, or leaves the
walk ahead as it was. -/
theorem ahead_eq_turn {cursor : WalkCursor} (running : cursor.failed = false) {room : Room}
    (notFull : room.isFull = false) :
    walker.ahead cursor room = walker.turn cursor >>= walker.afterTurn room := by
  rcases cursor with ⟨stack, visiting, active, failed⟩
  cases running
  rcases active with _ | ⟨principals, permissions, conditions⟩
  · rcases visiting with _ | ⟨position, realm, depth, pending⟩
    · rw [ahead_between_realms rfl rfl rfl notFull]
      rcases stack with _ | ⟨⟨r, depth⟩, more⟩
      · simp only [turn, pure_bind, afterTurn]
        rfl
      · by_cases deep : walker.graph.size ≤ depth
        · simp only [turn, deep, ↓reduceIte, pure_bind, afterTurn, walkStack]
          rw [chain_congr_pure (walkFrom_deep notFull deep)]
          exact chain_stopped (by rfl) _ room
        · rcases found : walker.graph.realms[r]? with _ | realm
          · simp only [turn, deep, ↓reduceIte, found, pure_bind, afterTurn, walkStack]
            rw [chain_congr_pure (walkFrom_missing notFull deep found), chain_empty_left notFull,
              ahead_between_realms rfl rfl rfl notFull]
          · simp only [turn, deep, ↓reduceIte, found, pure_bind, afterTurn, walkStack]
            rw [chain_congr_first (walkFrom_found notFull deep found),
              ahead_inactive rfl rfl notFull]
            rfl
    · rw [ahead_inactive rfl rfl notFull]
      rcases pending with _ | ⟨⟨binding, b⟩, more⟩
      · simp only [aheadInRealm, bindingGrants]
        rw [chain_congr_first (chain_empty_left notFull)]
        rcases parentsFound : walker.graph.parentPositions realm with e | parents
        · simp only [walkParents_error parentsFound, turn, parentsFound, pure_bind, afterTurn]
          exact chain_stopped (by rfl) _ room
        · simp only [walkParents_ok parentsFound, turn, parentsFound, pure_bind, afterTurn]
          rw [ahead_between_realms rfl rfl rfl notFull, walkStack_append]
      · simp only [aheadInRealm]
        rw [chain_assoc, chain_eq_bind, bindingGrants_cons notFull]
        simp only [turn, bind_assoc]
        congr 1
        funext answer
        rcases answer with e | ⟨permissions, conditions⟩
        · simp only [pure_bind, afterTurn]
          exact chain_stopped (by rfl) _ room
        · simp only [pure_bind, afterTurn, ahead, aheadInRealm, Bool.false_eq_true, ↓reduceIte,
            Option.map_some, Option.getD_some, ActiveBinding.grants]
          rw [← chain_eq_bind, chain_assoc, chain_assoc]
  · rcases principals with _ | ⟨principal, more⟩
    · simp only [turn, pure_bind, afterTurn]
      rfl
    · simp only [turn, pure_bind, afterTurn, ahead, Bool.false_eq_true, ↓reduceIte,
        Option.map_some, Option.getD_some, ActiveBinding.grants, List.map_cons]
      exact chain_cons notFull _

/-! ### Draining the iterator -/

/-- The walk left after the iterator's next item, with the item in front of it. -/
def afterNext (walker : Walker) (room : Room) :
    Option (Except ExpandError Grant) × WalkCursor → StateM WalkMemo Trace
  | (some (.ok grant), next) =>
      (fun rest => { rest with grants := grant :: rest.grants }) <$>
        walker.ahead next (room.after 1)
  | (some (.error e), _) => pure { stop := some e }
  | (none, _) => pure {}

theorem afterTurn_yield (room : Room) (item : Except ExpandError Grant) (next : WalkCursor) :
    walker.afterTurn room (.yield item next) = walker.afterNext room (some item, next) := by
  cases item <;> rfl

/-- The iterator's next item is the first item of the walk ahead. -/
theorem ahead_eq_next (cursor : WalkCursor) {room : Room} (notFull : room.isFull = false) :
    walker.ahead cursor room = walker.next cursor >>= walker.afterNext room := by
  -- on the turns still to come: a turn that hands out nothing leaves a cheaper iterator
  induction cursor using (measure walker.cost).wf.induction with
  | h cursor ih =>
  apply StateT.ext
  intro memo
  rcases pulled : (walker.next cursor).run memo with ⟨⟨item?, following⟩, afterPull⟩
  rw [run_bind_of_run_eq pulled]
  rw [StateT.run, Walker.next] at pulled
  split at pulled
  · next failed =>
      cases pulled
      simp only [ahead, failed, ↓reduceIte, afterNext]
  · next running =>
      rw [ahead_eq_turn (Bool.eq_false_iff.mpr running) notFull]
      split at pulled
      · next item next afterStep turned =>
          cases pulled
          rw [run_bind_of_run_eq turned, afterTurn_yield]
      · next next afterStep turned =>
          rw [run_bind_of_run_eq turned, afterTurn, ih next (walker.cost_turn turned rfl)]
          exact run_bind_of_run_eq pulled
      · next afterStep turned =>
          cases pulled
          rw [run_bind_of_run_eq turned]
          rfl

/-- Draining an iterator gives the walk ahead of it. -/
theorem drain_eq_ahead (room : Room) (cursor : WalkCursor) :
    walker.drain room cursor = walker.ahead cursor room := by
  -- on the turns still to come: each item handed out leaves a cheaper iterator
  induction cursor using (measure walker.cost).wf.induction generalizing room with
  | h cursor ih =>
  apply StateT.ext
  intro memo
  cases full : room.isFull
  · rw [ahead_eq_next cursor full, StateT.run, drain]
    simp only [full, Bool.false_eq_true, ↓reduceIte]
    split
    · next grant following afterPull pulled =>
        rw [run_bind_of_run_eq pulled, afterNext, ← ih following (walker.cost_next pulled)]
        rcases drained : (walker.drain (room.after 1) following).run afterPull with
          ⟨rest, afterRest⟩
        rw [run_map_state _ drained]
    · next e following afterPull pulled =>
        rw [run_bind_of_run_eq pulled]
        rfl
    · next following afterPull pulled =>
        rw [run_bind_of_run_eq pulled]
        rfl
  · rw [StateT.run, drain, idle_ahead cursor room full]
    simp only [full, ↓reduceIte]
    rfl

/-- Draining the iterator that starts at a realm is the walk from it. -/
theorem drain_start (r : Nat) (room : Room) :
    walker.drain room (WalkCursor.start r) = walker.walkFrom r 0 room := by
  rw [drain_eq_ahead]
  cases full : room.isFull
  · rw [ahead_between_realms rfl rfl rfl full]
    simp only [WalkCursor.start, walkStack]
    rw [chain_empty_right]
  · rw [idle_ahead _ room full, idle_walkFrom r 0 room full]

/-! ### After the last item -/

/-- A turn that hands out an error leaves the iterator failed. -/
theorem turn_error_fails {cursor next : WalkCursor} {memo memo' : WalkMemo} {e : ExpandError}
    (turned : (walker.turn cursor).run memo = (.yield (.error e) next, memo')) :
    next.failed = true := by
  rcases cursor with ⟨stack, visiting, active, failed⟩
  rcases active with _ | ⟨principals, permissions, conditions⟩
  · rcases visiting with _ | ⟨position, realm, depth, pending⟩
    · rcases stack with _ | ⟨⟨r, depth⟩, more⟩
      · simp only [turn] at turned
        cases turned
      · simp only [turn] at turned
        split at turned
        · cases turned
          rfl
        · split at turned <;> cases turned
    · rcases pending with _ | ⟨⟨binding, b⟩, more⟩
      · simp only [turn] at turned
        split at turned <;> cases turned
        rfl
      · simp only [turn, StateT.run_bind] at turned
        rcases granted : (walker.grant position b binding).run.run memo with
          ⟨answer, afterGrant⟩
        rw [granted] at turned
        cases answer <;> cases turned
        rfl
  · rcases principals with _ | ⟨principal, more⟩ <;> simp only [turn] at turned <;>
      cases turned

/-- The loop finds nothing to do only when nothing is left, and then it finds nothing to do from
every memo. -/
theorem turn_finish {cursor : WalkCursor} {memo memo' : WalkMemo}
    (turned : (walker.turn cursor).run memo = (.finish, memo')) (memo'' : WalkMemo) :
    (walker.turn cursor).run memo'' = (.finish, memo'') := by
  rcases cursor with ⟨stack, visiting, active, failed⟩
  rcases active with _ | ⟨principals, permissions, conditions⟩
  · rcases visiting with _ | ⟨position, realm, depth, pending⟩
    · rcases stack with _ | ⟨⟨r, depth⟩, more⟩
      · rfl
      · simp only [turn] at turned
        split at turned
        · cases turned
        · split at turned <;> cases turned
    · rcases pending with _ | ⟨⟨binding, b⟩, more⟩
      · simp only [turn] at turned
        split at turned <;> cases turned
      · simp only [turn, StateT.run_bind] at turned
        rcases granted : (walker.grant position b binding).run.run memo with
          ⟨answer, afterGrant⟩
        rw [granted] at turned
        cases answer <;> cases turned
  · rcases principals with _ | ⟨principal, more⟩ <;> simp only [turn] at turned <;>
      cases turned

theorem next_of_failed {cursor : WalkCursor} (failed : cursor.failed = true) (memo : WalkMemo) :
    (walker.next cursor).run memo = ((none, cursor), memo) := by
  rw [StateT.run, next]
  simp only [failed, ↓reduceIte]

theorem next_of_finish {cursor : WalkCursor} (running : cursor.failed = false)
    (finished : ∀ memo, (walker.turn cursor).run memo = (.finish, memo)) (memo : WalkMemo) :
    (walker.next cursor).run memo = ((none, cursor), memo) := by
  rw [StateT.run, next]
  simp only [running, Bool.false_eq_true, ↓reduceIte]
  split
  · next turned =>
      rw [finished] at turned
      cases turned
  · next turned =>
      rw [finished] at turned
      cases turned
  · next turned =>
      rw [finished] at turned
      cases turned
      rfl

/-- Once the iterator hands out nothing, or an error, it hands out nothing ever after and leaves
the memo alone. -/
theorem next_after_end {cursor following : WalkCursor} {memo memo' : WalkMemo}
    {item? : Option (Except ExpandError Grant)}
    (pulled : (walker.next cursor).run memo = ((item?, following), memo'))
    (ended : ∀ grant, item? ≠ some (.ok grant)) (memo'' : WalkMemo) :
    (walker.next following).run memo'' = ((none, following), memo'') := by
  -- on the turns still to come, as in `ahead_eq_next`
  induction cursor using (measure walker.cost).wf.induction generalizing memo with
  | h cursor ih =>
  rw [StateT.run, Walker.next] at pulled
  split at pulled
  · next failed =>
      cases pulled
      exact next_of_failed failed memo''
  · next running =>
      split at pulled
      · next item next afterStep turned =>
          cases pulled
          cases item with
          | ok grant => exact absurd rfl (ended grant)
          | error e => exact next_of_failed (turn_error_fails turned) memo''
      · next next afterStep turned =>
          exact ih next (walker.cost_turn turned rfl) pulled
      · next afterStep turned =>
          cases pulled
          exact next_of_finish (Bool.eq_false_iff.mpr running) (turn_finish turned) memo''

/-- The iterator refines the recursive walk. Drained from a realm, it hands out the walk from that
realm item for item, the first error ending both, with the same effects on the memo in the same
order, from every memo and with room for any number of items; and once it hands out nothing or an
error, it hands out nothing ever after. -/
theorem iterator_refines_recursive_walk (walker : Walker) (r : Nat) (room : Room) :
    walker.drain room (WalkCursor.start r) = walker.walkFrom r 0 room ∧
      ∀ (cursor following : WalkCursor) (memo memo' : WalkMemo)
        (item? : Option (Except ExpandError Grant)),
        (walker.next cursor).run memo = ((item?, following), memo') →
        (∀ grant, item? ≠ some (.ok grant)) →
        ∀ memo'', (walker.next following).run memo'' = ((none, following), memo'') :=
  ⟨drain_start r room, fun _ _ _ _ _ pulled ended memo'' => next_after_end pulled ended memo''⟩

end Walker

end RealmAccess
