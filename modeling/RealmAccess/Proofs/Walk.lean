import Mathlib.Logic.Relation
import RealmAccess.Expansion.Walker
import RealmAccess.Proofs.Graph
import RealmAccess.Proofs.Resolution
/-!
# What a walk grants

A walk without a limit on its grants lists, for every realm it reaches, one grant per principal
of each binding there: the principal, the permissions of the binding's role, and the final
numbers of the binding's conditions. Conversely, when the walk runs to its end, every binding of
every realm the walk can reach has its grants listed. "Reach" is the reflexive-transitive
closure of `RealmGraph.Step`: from a realm to a realm it inherits from directly.

Along the way the role memo stays sound and only grows, and the services memo is left alone.
-/

namespace RealmAccess

/-- The realm at `c` is one the realm at `a` inherits from directly. -/
def RealmGraph.Step (graph : RealmGraph) (a c : Nat) : Prop :=
  ∃ realm parents, graph.realms[a]? = some realm ∧ graph.parentPositions realm = .ok parents ∧
    c ∈ parents

namespace Walker

variable {walker : Walker}

/-- The slots of the conditions of binding `b` of the realm at `r`. -/
def bindingSlots (r b : Nat) (binding : Binding) : List Slot :=
  (List.range binding.conditions.length).map (Slot.ofIndices r b)

/-- What binding `b` of the realm at `r` grants one of its principals: the permissions of the
binding's role, numbered in `table`, and the final numbers of the binding's conditions. -/
structure GrantOf (walker : Walker) (table : NameTable) (r b : Nat) (binding : Binding)
    (grant : Grant) : Prop where
  principal : grant.principal ∈ binding.principals
  permissions : table.Lists grant.permissions (walker.source.Grants binding.role)
  conditions : walker.conditions.indexes (bindingSlots r b binding) = .ok grant.conditions
  known : RoleKnown walker.source.registry walker.source.customNames binding.role

theorem GrantOf.mono {table table' : NameTable} {r b : Nat} {binding : Binding} {grant : Grant}
    (extended : table.names <+: table'.names) (given : walker.GrantOf table r b binding grant) :
    walker.GrantOf table' r b binding grant :=
  ⟨given.principal, given.permissions.mono extended, given.conditions, given.known⟩

/-- Every name that `after` numbers and `before` does not is a permission of the role of some
binding of the walker's realms. -/
def NumbersGranted (walker : Walker) (before after : NameTable) : Prop :=
  ∀ x ∈ after.names, x ∈ before.names ∨
    ∃ realm ∈ walker.graph.realms, ∃ binding ∈ realm.bindings, walker.source.Grants binding.role x

theorem NumbersGranted.refl (table : NameTable) : walker.NumbersGranted table table :=
  fun _ member => Or.inl member

theorem NumbersGranted.trans {first middle last : NameTable}
    (before : walker.NumbersGranted first middle) (after : walker.NumbersGranted middle last) :
    walker.NumbersGranted first last := by
  intro x member
  rcases after x member with old | granted
  · exact before x old
  · exact Or.inr granted

/-- A run of the walker from `memo` to `memo'` that keeps the role memo sound, only extends it,
and leaves the services alone. -/
structure Keeps (source : RoleSource) (memo memo' : WalkMemo) : Prop where
  sound : memo'.roles.Sound source
  grows : memo.roles.Extends memo'.roles
  services : memo'.services = memo.services

theorem Keeps.refl {source : RoleSource} {memo : WalkMemo} (sound : memo.roles.Sound source) :
    Keeps source memo memo :=
  ⟨sound, .refl memo.roles, rfl⟩

theorem Keeps.trans {source : RoleSource} {memo middle memo' : WalkMemo}
    (first : Keeps source memo middle) (second : Keeps source middle memo') :
    Keeps source memo memo' :=
  ⟨second.sound, first.grows.trans second.grows, second.services.trans first.services⟩

/-! ### One binding -/

theorem run_resolving {α : Type} (step : ResolveM α) (memo : WalkMemo) :
    (resolving step).run.run memo =
      ((step.run.run memo.roles).1, { memo with roles := (step.run.run memo.roles).2 }) := rfl

theorem run_liftExcept {α : Type} (answer : Except ExpandError α) (memo : WalkMemo) :
    (grant.liftExcept answer).run.run memo = (answer, memo) := by
  cases answer <;> rfl

/-- Granting a binding resolves its role and looks up its conditions; the role memo stays sound
and what it answers is right. -/
theorem grant_spec {r b : Nat} {binding : Binding} {memo memo' : WalkMemo}
    {result : Except ExpandError (List Nat × List Nat)} (sound : memo.roles.Sound walker.source)
    (ran : (walker.grant r b binding).run.run memo = (result, memo')) :
    Keeps walker.source memo memo' ∧
      ∀ permissions conditions, result = .ok (permissions, conditions) →
        memo'.roles.table.Lists permissions (walker.source.Grants binding.role) ∧
          walker.conditions.indexes (bindingSlots r b binding) = .ok conditions ∧
          RoleKnown walker.source.registry walker.source.customNames binding.role ∧
          memo'.roles.Remembers binding.role ∧
          ∀ x ∈ memo'.roles.table.names,
            x ∈ memo.roles.table.names ∨ walker.source.Grants binding.role x := by
  unfold grant at ran
  rw [run_run_bind, run_resolving] at ran
  rcases resolveRan : (walker.source.resolve binding.role).run.run memo.roles with
    ⟨resolved, roles⟩
  obtain ⟨rolesSound, rolesGrow, answered⟩ :=
    RoleSource.resolve_spec walker.source binding.role sound resolveRan
  rw [resolveRan] at ran
  have kept : Keeps walker.source memo { memo with roles := roles } := ⟨rolesSound, rolesGrow, rfl⟩
  cases resolved with
  | error e =>
      obtain ⟨rfl, rfl⟩ := ran
      exact ⟨kept, fun _ _ failed => by cases failed⟩
  | ok permissions =>
      simp only [run_run_bind, run_liftExcept] at ran
      cases looked : walker.conditions.indexes (bindingSlots r b binding) with
      | error e =>
          simp only [bindingSlots] at looked
          simp only [looked] at ran
          obtain ⟨rfl, rfl⟩ := ran
          exact ⟨kept, fun _ _ failed => by cases failed⟩
      | ok conditions =>
          simp only [bindingSlots] at looked
          simp only [looked, run_run_pure] at ran
          obtain ⟨rfl, rfl⟩ := ran
          refine ⟨kept, fun granted numbered answer => ?_⟩
          cases answer
          obtain ⟨listed, fresh, known, remembered⟩ := answered permissions rfl
          exact ⟨listed, rfl, known, remembered, fresh⟩

/-! ### The bindings of one realm -/

theorem Trace.andThen_of_stop_none {first : Trace} (second : Trace) (running : first.stop = none) :
    first.andThen second = { grants := first.grants ++ second.grants, stop := second.stop } := by
  unfold Trace.andThen
  rw [running]

theorem run_bindingGrants_cons (r b : Nat) (binding : Binding) (more : List (Binding × Nat))
    (memo : WalkMemo) :
    (walker.bindingGrants r none ((binding, b) :: more)).run memo =
      match (walker.grant r b binding).run.run memo with
      | (.error e, afterGrant) => ({ stop := some e }, afterGrant)
      | (.ok (permissions, conditions), afterGrant) =>
          (({ grants := binding.principals.map fun principal =>
                ⟨principal, permissions, conditions⟩ } : Trace).andThen
              ((walker.bindingGrants r none more).run afterGrant).1,
            ((walker.bindingGrants r none more).run afterGrant).2) := by
  rw [bindingGrants]
  rcases granted : (walker.grant r b binding).run.run memo with
    ⟨_ | ⟨permissions, conditions⟩, afterGrant⟩
  all_goals
    simp only [Room.isFull, Bool.false_eq_true, if_false, StateT.run_bind, granted]
    rfl

/-- The bindings of a realm, walked without a limit: each grant listed is one a binding gives,
and when no binding fails every principal of every binding has its grant. -/
theorem bindingGrants_spec (r : Nat) :
    ∀ (items : List (Binding × Nat)) {memo memo' : WalkMemo} {trace : Trace},
      memo.roles.Sound walker.source →
      (walker.bindingGrants r none items).run memo = (trace, memo') →
      Keeps walker.source memo memo' ∧
        (∀ g ∈ trace.grants, ∃ item ∈ items, walker.GrantOf memo'.roles.table r item.2 item.1 g) ∧
        (trace.stop = none → ∀ item ∈ items, ∀ q ∈ item.1.principals,
          ∃ g ∈ trace.grants, g.principal = q ∧ walker.GrantOf memo'.roles.table r item.2 item.1 g) ∧
        (trace.stop = none → (∀ item ∈ items, memo'.roles.Remembers item.1.role) ∧
          ∀ x ∈ memo'.roles.table.names, x ∈ memo.roles.table.names ∨
            ∃ item ∈ items, walker.source.Grants item.1.role x)
  | [], memo, memo', trace, sound, ran => by
      cases ran
      exact ⟨.refl sound, fun _ member => (by cases member), fun _ _ member => (by cases member),
        fun _ => ⟨fun _ member => (by cases member), fun _ member => Or.inl member⟩⟩
  | (binding, b) :: more, memo, memo', trace, sound, ran => by
      rw [run_bindingGrants_cons] at ran
      rcases grantRan : (walker.grant r b binding).run.run memo with ⟨result, afterGrant⟩
      obtain ⟨grantKept, answered⟩ := grant_spec sound grantRan
      rw [grantRan] at ran
      cases result with
      | error e =>
          -- the walk of the realm ends at this binding
          cases ran
          exact ⟨grantKept, fun _ member => (by cases member), fun stopped => (by cases stopped),
            fun stopped => (by cases stopped)⟩
      | ok pair =>
          obtain ⟨permissions, conditions⟩ := pair
          dsimp only at ran
          obtain ⟨listed, looked, known, remembered, fresh⟩ := answered permissions conditions rfl
          rcases restRan : (walker.bindingGrants r none more).run afterGrant with ⟨rest, afterRest⟩
          obtain ⟨restKept, restSound, restCovers, restResolved⟩ :=
            bindingGrants_spec r more grantKept.sound restRan
          rw [restRan] at ran
          cases ran
          have given : ∀ q ∈ binding.principals,
              walker.GrantOf afterRest.roles.table r b binding ⟨q, permissions, conditions⟩ :=
            fun q member => ⟨member, listed.mono restKept.grows.names, looked, known⟩
          refine ⟨grantKept.trans restKept, ?_, ?_, fun finished => ?_⟩
          · intro g member
            rw [Trace.andThen_of_stop_none rest rfl] at member
            rcases List.mem_append.mp member with own | later
            · obtain ⟨q, qMember, rfl⟩ := List.mem_map.mp own
              exact ⟨(binding, b), List.mem_cons_self, given q qMember⟩
            · obtain ⟨item, itemMember, givenLater⟩ := restSound g later
              exact ⟨item, List.mem_cons_of_mem _ itemMember, givenLater⟩
          · intro finished item member q qMember
            rw [Trace.andThen_of_stop_none rest rfl] at finished ⊢
            rcases List.mem_cons.mp member with rfl | later
            · exact ⟨⟨q, permissions, conditions⟩,
                List.mem_append_left _ (List.mem_map_of_mem qMember), rfl, given q qMember⟩
            · obtain ⟨g, gMember, named, givenLater⟩ := restCovers finished item later q qMember
              exact ⟨g, List.mem_append_right _ gMember, named, givenLater⟩
          · -- the binding's role stays remembered, and what the rest numbers is the rest's
            rw [Trace.andThen_of_stop_none rest rfl] at finished
            obtain ⟨restRemembered, restFresh⟩ := restResolved finished
            refine ⟨fun item member => ?_, fun x numbered => ?_⟩
            · rcases List.mem_cons.mp member with rfl | later
              · exact restKept.grows.remembers remembered
              · exact restRemembered item later
            · rcases restFresh x numbered with old | ⟨item, itemMember, granted⟩
              · rcases fresh x old with older | granted
                · exact Or.inl older
                · exact Or.inr ⟨(binding, b), List.mem_cons_self, granted⟩
              · exact Or.inr ⟨item, List.mem_cons_of_mem _ itemMember, granted⟩

/-! ### Walks -/

/-- A grant that some binding of the realm at `r` gives. -/
def Gives (walker : Walker) (table : NameTable) (r : Nat) (grant : Grant) : Prop :=
  ∃ realm, walker.graph.realms[r]? = some realm ∧
    ∃ b binding, realm.bindings[b]? = some binding ∧ walker.GrantOf table r b binding grant

/-- Every principal of every binding of the realm at `r` has its grant in `grants`. -/
def Covers (walker : Walker) (table : NameTable) (r : Nat) (grants : List Grant) : Prop :=
  ∀ realm, walker.graph.realms[r]? = some realm → ∀ b binding, realm.bindings[b]? = some binding →
    ∀ q ∈ binding.principals, ∃ g ∈ grants, g.principal = q ∧ walker.GrantOf table r b binding g

theorem Gives.mono {table table' : NameTable} {r : Nat} {grant : Grant}
    (extended : table.names <+: table'.names) (given : walker.Gives table r grant) :
    walker.Gives table' r grant := by
  obtain ⟨realm, realmFound, b, binding, bindingFound, grantOf⟩ := given
  exact ⟨realm, realmFound, b, binding, bindingFound, grantOf.mono extended⟩

theorem Covers.mono {table table' : NameTable} {r : Nat} {grants grants' : List Grant}
    (extended : table.names <+: table'.names) (more : grants ⊆ grants')
    (covered : walker.Covers table r grants) : walker.Covers table' r grants' := by
  intro realm realmFound b binding bindingFound q member
  obtain ⟨g, gMember, named, grantOf⟩ := covered realm realmFound b binding bindingFound q member
  exact ⟨g, more gMember, named, grantOf.mono extended⟩

/-- A realm with no realm at its position reaches nothing else. -/
theorem reach_of_missing {r r' : Nat} (missing : walker.graph.realms[r]? = none)
    (reached : Relation.ReflTransGen walker.graph.Step r r') : r' = r := by
  rcases Relation.ReflTransGen.cases_head reached with same | ⟨c, ⟨realm, _, found, _⟩, _⟩
  · exact same.symm
  · rw [missing] at found
    cases found

/-! ### The recursion of the walk -/

/-- Induction along the recursion of `walkFrom`: a property of the walk from every position at
every depth follows from the property for a walk too deep, for a position with no realm, and for
a realm, given the property of the walks one step deeper. -/
theorem walkFrom_induction (walker : Walker) {motive : Nat → Nat → Prop}
    (deep : ∀ r depth, walker.graph.size ≤ depth → motive r depth)
    (missing : ∀ r depth, ¬ walker.graph.size ≤ depth → walker.graph.realms[r]? = none →
      motive r depth)
    (found : ∀ r depth realm, ¬ walker.graph.size ≤ depth →
      walker.graph.realms[r]? = some realm → (∀ parent, motive parent (depth + 1)) →
      motive r depth)
    (r depth : Nat) : motive r depth := by
  -- on the steps left before the depth bound, the measure of `walkFrom`
  induction remaining : walker.graph.size - depth using Nat.strong_induction_on
    generalizing r depth with
  | _ steps ih =>
      by_cases tooDeep : walker.graph.size ≤ depth
      · exact deep r depth tooDeep
      · rcases located : walker.graph.realms[r]? with _ | realm
        · exact missing r depth tooDeep located
        · exact found r depth realm tooDeep located fun parent =>
            ih (walker.graph.size - (depth + 1)) (by omega) parent (depth + 1) rfl

theorem walkFrom_deep {r depth : Nat} {room : Room} (notFull : room.isFull = false)
    (deep : walker.graph.size ≤ depth) :
    walker.walkFrom r depth room = pure
      { stop := some (.cycle .realm (((walker.graph.realms[r]?).map (·.name)).getD "")) } := by
  rw [walkFrom]
  simp only [notFull, Bool.false_eq_true, ↓reduceIte, deep, dite_true]

theorem walkFrom_missing {r depth : Nat} {room : Room} (notFull : room.isFull = false)
    (shallow : ¬ walker.graph.size ≤ depth) (missing : walker.graph.realms[r]? = none) :
    walker.walkFrom r depth room = pure {} := by
  rw [walkFrom]
  simp only [notFull, Bool.false_eq_true, ↓reduceIte, shallow, dite_false, missing]

/-- One turn of the loop of a walk with no limit over the parents of a realm at `depth`: the walk
from the parent one step deeper, unless the walk so far ended early. -/
def parentStep (walker : Walker) (depth : Nat) (trace : Trace) (parent : Nat) :
    StateM WalkMemo Trace :=
  if trace.stop.isSome then pure trace
  else walker.walkFrom parent (depth + 1) none >>= fun next => pure (trace.andThen next)

/-- The walk from a realm with no limit: its bindings, then, unless one of them failed, the walks
from its parents one after another. -/
theorem walkFrom_none_found {r depth : Nat} {realm : Realm}
    (shallow : ¬ walker.graph.size ≤ depth) (found : walker.graph.realms[r]? = some realm) :
    walker.walkFrom r depth none =
      walker.bindingGrants r none realm.bindings.zipIdx >>= fun own =>
        if own.stop.isSome then pure own
        else
          match walker.graph.parentPositions realm with
          | .error e => pure (own.andThen { stop := some e })
          | .ok parents => parents.foldlM (walker.parentStep depth) own := by
  rw [walkFrom]
  simp only [Room.isFull, Room.after, Option.map_none, Bool.false_eq_true, if_false, shallow,
    dite_false, found, Bool.or_false]
  rfl

/-- What the walk from the realm at `r`, reached along `depth` steps, does when it has no limit:
it keeps the memo, every grant it lists is given by a realm it reaches, and if it runs to its
end it lists the grants of every realm it reaches, resolves the role of every binding of the
realm, and numbers only permissions of the roles of bindings. -/
def WalksFrom (walker : Walker) (r depth : Nat) : Prop :=
  ∀ memo trace memo', memo.roles.Sound walker.source →
    (walker.walkFrom r depth none).run memo = (trace, memo') →
    Keeps walker.source memo memo' ∧
      (∀ g ∈ trace.grants, ∃ r', Relation.ReflTransGen walker.graph.Step r r' ∧
        walker.Gives memo'.roles.table r' g) ∧
      (trace.stop = none → (∀ r', Relation.ReflTransGen walker.graph.Step r r' →
        walker.Covers memo'.roles.table r' trace.grants) ∧
        (∀ realm, walker.graph.realms[r]? = some realm → ∀ binding ∈ realm.bindings,
          memo'.roles.Remembers binding.role) ∧
        walker.NumbersGranted memo.roles.table memo'.roles.table)

/-- The walks from the parents of a realm, one after another from `start`, each on when the
ones before ran to their end. -/
theorem foldParents_spec (depth : Nat) :
    ∀ {parents : List Nat}, (∀ p ∈ parents, walker.WalksFrom p (depth + 1)) →
    ∀ {start trace : Trace} {memo memo' : WalkMemo}, memo.roles.Sound walker.source →
      (parents.foldlM (walker.parentStep depth) start).run memo = (trace, memo') →
      Keeps walker.source memo memo' ∧
        (∀ g ∈ trace.grants, g ∈ start.grants ∨ ∃ p ∈ parents, ∃ r',
          Relation.ReflTransGen walker.graph.Step p r' ∧ walker.Gives memo'.roles.table r' g) ∧
        (trace.stop = none → start.stop = none ∧ start.grants ⊆ trace.grants ∧
          (∀ p ∈ parents, ∀ r', Relation.ReflTransGen walker.graph.Step p r' →
            walker.Covers memo'.roles.table r' trace.grants) ∧
          walker.NumbersGranted memo.roles.table memo'.roles.table)
  | [], _, start, trace, memo, memo', sound, ran => by
      cases ran
      refine ⟨.refl sound, fun g member => Or.inl member, fun running => ?_⟩
      exact ⟨running, fun _ member => member, fun _ member => (by cases member), .refl _⟩
  | p :: more, walks, start, trace, memo, memo', sound, ran => by
      have walksMore : ∀ p' ∈ more, walker.WalksFrom p' (depth + 1) :=
        fun p' member => walks p' (List.mem_cons_of_mem p member)
      rw [List.foldlM_cons] at ran
      rcases stepRan : (walker.parentStep depth start p).run memo with ⟨middle, afterStep⟩
      rw [run_bind_of_run_eq stepRan] at ran
      rw [parentStep] at stepRan
      split at stepRan
      · next stopped =>
          -- an earlier walk ended early: nothing more is walked
          cases stepRan
          obtain ⟨restKept, restSound, restCovers⟩ := foldParents_spec depth walksMore sound ran
          refine ⟨restKept, fun g member => ?_, fun running => ?_⟩
          · rcases restSound g member with early | ⟨p', p'Member, r', reached, given⟩
            · exact Or.inl early
            · exact Or.inr ⟨p', List.mem_cons_of_mem p p'Member, r', reached, given⟩
          · have startRunning := (restCovers running).1
            rw [startRunning] at stopped
            cases stopped
      · next running =>
          rcases walkRan : (walker.walkFrom p (depth + 1) none).run memo with ⟨next, afterWalk⟩
          obtain ⟨walkKept, walkSound, walkCovers⟩ :=
            walks p List.mem_cons_self memo next afterWalk sound walkRan
          rw [run_bind_of_run_eq walkRan] at stepRan
          cases stepRan
          obtain ⟨restKept, restSound, restCovers⟩ :=
            foldParents_spec depth walksMore walkKept.sound ran
          have startRunning : start.stop = none := Option.not_isSome_iff_eq_none.mp running
          rw [Trace.andThen_of_stop_none next startRunning] at restSound restCovers
          have extended := restKept.grows.names
          refine ⟨walkKept.trans restKept, fun g member => ?_, fun finished => ?_⟩
          · rcases restSound g member with early | ⟨p', p'Member, r', reached, given⟩
            · rcases List.mem_append.mp early with fromStart | fromNext
              · exact Or.inl fromStart
              · obtain ⟨r', reached, given⟩ := walkSound g fromNext
                exact Or.inr ⟨p, List.mem_cons_self, r', reached, given.mono extended⟩
            · exact Or.inr ⟨p', List.mem_cons_of_mem p p'Member, r', reached, given⟩
          · obtain ⟨nextRunning, joined, laterCovered, laterNumbers⟩ := restCovers finished
            obtain ⟨walkCovered, -, walkNumbers⟩ := walkCovers nextRunning
            refine ⟨startRunning, fun g member => joined (List.mem_append_left _ member), ?_,
              walkNumbers.trans laterNumbers⟩
            intro p' p'Member r' reached
            rcases List.mem_cons.mp p'Member with rfl | later
            · exact (walkCovered r' reached).mono extended
                fun g member => joined (List.mem_append_right _ member)
            · exact laterCovered p' later r' reached

theorem gives_of_bindingGrants {table : NameTable} {r : Nat} {realm : Realm} {grant : Grant}
    (found : walker.graph.realms[r]? = some realm)
    (given : ∃ item ∈ realm.bindings.zipIdx, walker.GrantOf table r item.2 item.1 grant) :
    walker.Gives table r grant := by
  obtain ⟨⟨binding, b⟩, member, grantOf⟩ := given
  exact ⟨realm, found, b, binding, List.mem_zipIdx_iff_getElem?.mp member, grantOf⟩

theorem covers_of_bindingGrants {table : NameTable} {r : Nat} {realm : Realm}
    {grants : List Grant} (found : walker.graph.realms[r]? = some realm)
    (covered : ∀ item ∈ realm.bindings.zipIdx, ∀ q ∈ item.1.principals,
      ∃ g ∈ grants, g.principal = q ∧ walker.GrantOf table r item.2 item.1 g) :
    walker.Covers table r grants := by
  intro realm' found' b binding bindingFound q member
  rw [found] at found'
  cases found'
  exact covered (binding, b) (List.mem_zipIdx_iff_getElem?.mpr bindingFound) q member

/-- Every walk without a limit does what `WalksFrom` says. -/
theorem walksFrom (walker : Walker) (r depth : Nat) : walker.WalksFrom r depth := by
  induction r, depth using walkFrom_induction walker with
  | deep r depth deep =>
      intro memo trace memo' sound ran
      rw [walkFrom_deep rfl deep] at ran
      cases ran
      exact ⟨.refl sound, fun _ member => (by cases member), fun stopped => (by cases stopped)⟩
  | missing r depth notDeep missing =>
      intro memo trace memo' sound ran
      rw [walkFrom_missing rfl notDeep missing] at ran
      cases ran
      refine ⟨.refl sound, fun _ member => (by cases member), fun _ => ⟨fun r' reached => ?_,
        fun realm found => ?_, .refl _⟩⟩
      · rw [reach_of_missing missing reached]
        intro realm found
        rw [missing] at found
        cases found
      · rw [missing] at found
        cases found
  | found r depth realm notDeep found ih =>
      intro memo trace memo' sound ran
      rw [walkFrom_none_found notDeep found] at ran
      rcases ownRan : (walker.bindingGrants r none realm.bindings.zipIdx).run memo with
        ⟨own, afterOwn⟩
      obtain ⟨ownKept, ownSound, ownCovers, ownResolved⟩ := bindingGrants_spec r _ sound ownRan
      rw [run_bind_of_run_eq ownRan] at ran
      have ownReached : ∀ g ∈ own.grants, ∃ r', Relation.ReflTransGen walker.graph.Step r r' ∧
          walker.Gives afterOwn.roles.table r' g :=
        fun g member => ⟨r, .refl, gives_of_bindingGrants found (ownSound g member)⟩
      split at ran
      · next stopped =>
          -- a binding failed: the walk ends with the realm's own grants
          cases ran
          refine ⟨ownKept, ownReached, fun running => ?_⟩
          rw [running] at stopped
          cases stopped
      · next running =>
          have ownRunning : own.stop = none := Option.not_isSome_iff_eq_none.mp running
          have ownCovered : walker.Covers afterOwn.roles.table r own.grants :=
            covers_of_bindingGrants found (ownCovers ownRunning)
          obtain ⟨ownRemembered, ownFresh⟩ := ownResolved ownRunning
          have ownNumbers : walker.NumbersGranted memo.roles.table afterOwn.roles.table := by
            intro x numbered
            rcases ownFresh x numbered with old | ⟨item, itemMember, granted⟩
            · exact Or.inl old
            · exact Or.inr ⟨realm, List.mem_of_getElem? found, item.1,
                List.mem_of_getElem? (List.mem_zipIdx_iff_getElem?.mp itemMember), granted⟩
          split at ran
          · next e _ =>
              -- an unknown parent ends the walk after the realm's own grants
              cases ran
              rw [Trace.andThen_of_stop_none _ ownRunning, List.append_nil]
              exact ⟨ownKept, ownReached, fun stopped => (by cases stopped)⟩
          · next parents positioned =>
              have walks : ∀ p ∈ parents, walker.WalksFrom p (depth + 1) :=
                fun p _ => ih p
              obtain ⟨foldKept, foldSound, foldCovers⟩ :=
                foldParents_spec depth walks ownKept.sound ran
              have extended := foldKept.grows.names
              refine ⟨ownKept.trans foldKept, fun g member => ?_,
                fun finished => ⟨fun r' reached => ?_, fun realm' realmFound => ?_, ?_⟩⟩
              · rcases foldSound g member with fromOwn | ⟨p, pMember, r', reached, given⟩
                · obtain ⟨r', reached, given⟩ := ownReached g fromOwn
                  exact ⟨r', reached, given.mono extended⟩
                · exact ⟨r', .head ⟨realm, parents, found, positioned, pMember⟩ reached, given⟩
              · obtain ⟨-, ownKeptInTrace, parentsCovered, -⟩ := foldCovers finished
                rcases Relation.ReflTransGen.cases_head reached with same | ⟨c, step, later⟩
                · rw [← same]
                  exact ownCovered.mono extended ownKeptInTrace
                · obtain ⟨realm', parents', found', positioned', cMember⟩ := step
                  rw [found] at found'
                  cases found'
                  rw [positioned] at positioned'
                  cases positioned'
                  exact parentsCovered c cMember r' later
              · rw [found] at realmFound
                cases realmFound
                intro binding member
                obtain ⟨b, inRange, rfl⟩ := List.getElem_of_mem member
                exact foldKept.grows.remembers (ownRemembered (realm.bindings[b], b)
                  (List.mem_zipIdx_iff_getElem?.mpr (List.getElem?_eq_getElem inRange)))
              · obtain ⟨-, -, -, foldNumbers⟩ := foldCovers finished
                exact ownNumbers.trans foldNumbers

end Walker

end RealmAccess
