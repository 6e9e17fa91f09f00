import Mathlib.Data.List.Perm.Subperm
import RealmAccess.Proofs.Resolution
import RealmAccess.Proofs.Ancestry
import RealmAccess.Proofs.ConditionTable
/-!
# Cycle errors name real cycles

Expansion reports a cycle in three places: resolution meets a custom role again on the path of
roles it is resolving, a walk grows longer than there are realms, or the search for services
meets a realm again on its path. None of these can happen without a cycle
(`ExpandError.Justified`): a role cycle names a custom role that extends itself through custom
roles, and a realm cycle comes from a realm that inherits from itself. The realm a walk names
need not be on the cycle; it is only the realm where the walk grew too long.

Each search carries the path it came along, and each step of the path is one edge of the graph
it searches, so a name met again closes a cycle. A walk keeps no path, only its depth; the
realms it came through are a chain of edges, and a chain longer than there are realms repeats
one.
-/

namespace RealmAccess

/-- What a cycle error says: a role cycle names a custom role that reaches itself, a realm cycle
means some realm of `graph` reaches itself. The other errors say nothing about cycles. -/
def ExpandError.Justified (source : RoleSource) (graph : RealmGraph) : ExpandError → Prop
  | .cycle .role name => Relation.TransGen source.Extends name name
  | .cycle .realm _ => ∃ name, Relation.TransGen graph.NameStep name name
  | _ => True

section Loops

variable {ε σ γ : Type}

/-- A loop fails only as one of its steps fails. -/
theorem forIn_run_error {step : γ → ExceptT ε (StateM σ) PUnit} {holds : ε → Prop}
    {items : List γ}
    (each : ∀ item ∈ items, ∀ state e state',
      (step item).run.run state = (.error e, state') → holds e)
    {state state' : σ} {e : ε}
    (ran : (forIn items PUnit.unit fun item _ => do
        step item
        pure (ForInStep.yield PUnit.unit)).run.run state = (.error e, state')) :
    holds e := by
  induction items generalizing state with
  | nil =>
      simp only [List.forIn_nil, run_run_pure, Prod.mk.injEq] at ran
      cases ran.1
  | cons item more ih =>
      simp only [List.forIn_cons, run_run_bind] at ran
      rcases stepRan : (step item).run.run state with ⟨first, middle⟩
      rw [stepRan] at ran
      cases first with
      | error e' =>
          cases ran
          exact each item List.mem_cons_self state _ _ stepRan
      | ok done =>
          simp only [run_run_pure] at ran
          exact ih (fun other member => each other (List.mem_cons_of_mem item member)) ran

/-- A pass over a list fails only as it fails on some element. -/
theorem exists_of_mapM_eq_error {α β : Type} {f : α → Except ε β} :
    ∀ {items : List α} {e : ε}, items.mapM f = .error e → ∃ item ∈ items, f item = .error e
  | [], e, failed => by cases failed
  | item :: more, e, failed => by
      rw [List.mapM_cons] at failed
      cases first : f item with
      | error e' =>
          rw [first] at failed
          cases failed
          exact ⟨item, List.mem_cons_self, first⟩
      | ok result =>
          rw [first] at failed
          cases rest : more.mapM f with
          | error e' =>
              rw [rest] at failed
              cases failed
              obtain ⟨other, otherMember, otherFailed⟩ := exists_of_mapM_eq_error rest
              exact ⟨other, List.mem_cons_of_mem item otherMember, otherFailed⟩
          | ok others =>
              rw [rest] at failed
              cases failed

/-- A list in which every element stands in `related` to every later one, for a relation that
relates nothing to itself, repeats nothing. -/
theorem exists_self_of_pairwise_of_not_nodup {α : Type} {related : α → α → Prop} {items : List α}
    (chained : items.Pairwise related) (repeated : ¬ items.Nodup) : ∃ item, related item item := by
  by_contra never
  refine repeated (chained.imp fun {a b} holds (same : a = b) => never ⟨a, ?_⟩)
  rw [← same] at holds
  exact holds

end Loops

namespace RoleSource

variable {source : RoleSource}

/-- Collecting the permissions of parents fails only on a parent that is not remembered. -/
theorem mapM_inherited_error {parents : List String} {memo memo' : RoleMemo} {e : ExpandError}
    (ran : (parents.mapM inherited).run.run memo = (.error e, memo')) :
    ∃ name, e = .unknownRole name := by
  induction parents generalizing memo with
  | nil => cases ran
  | cons parent more ih =>
      cases found : memo.resolved.lookup parent with
      | none =>
          have failed : (inherited parent).run.run memo = (.error (.unknownRole parent), memo) := by
            simp only [inherited, run_run_bind, run_memoized, found]
            rfl
          rw [List.mapM_cons, run_run_bind, failed] at ran
          cases ran
          exact ⟨parent, rfl⟩
      | some permissions =>
          have answered : (inherited parent).run.run memo = (.ok permissions, memo) := by
            simp only [inherited, run_run_bind, run_memoized, found]
            rfl
          rw [List.mapM_cons, run_run_bind_of_ok answered, run_run_bind] at ran
          rcases restRan : (more.mapM inherited).run.run memo with ⟨rest, afterRest⟩
          rw [restRan] at ran
          cases rest with
          | error e' =>
              cases ran
              exact ih restRan
          | ok _ => cases ran

/-- Resolution reports a role cycle only at a custom role that reaches itself: every role on the
path reaches the role being visited, so a role met again on the path closes a cycle. -/
theorem visit_justified (graph : RealmGraph) (path : List String) (name : String)
    (below : ∀ p ∈ path, Relation.TransGen source.Extends p name) {memo memo' : RoleMemo}
    {e : ExpandError} (ran : (source.visit path name).run.run memo = (.error e, memo')) :
    e.Justified source graph := by
  induction path, name using visit.induct source generalizing memo memo' e with
  | case1 path name ih =>
  rw [visit] at ran
  simp only [run_run_bind, run_memoized] at ran
  by_cases remembered : (memo.resolved.lookup name).isSome
  · simp only [remembered, if_true, run_run_pure] at ran
    cases ran
  simp only [remembered, Bool.false_eq_true, ↓reduceIte] at ran
  split at ran
  · split at ran
    · simp only [run_run_throw] at ran
      cases ran
      trivial
    · simp only [run_run_bind, run_number, run_remember] at ran
      cases ran
  · split at ran
    · next custom =>
      split at ran
      · next onPath =>
        -- the role is on its own path
        simp only [run_run_throw] at ran
        cases ran
        exact below name onPath
      · next notOnPath =>
        split at ran
        · simp only [run_run_throw] at ran
          cases ran
          trivial
        · next role found =>
          have step : ∀ parent ∈ role.parents, source.Extends name parent :=
            fun parent member => ⟨custom, role, found, member⟩
          split at ran
          · next parent closing =>
            -- a parent met again on the path closes a cycle through it
            simp only [run_run_throw] at ran
            cases ran
            have selected := List.find?_some closing
            have onPath : parent ∈ name :: path := of_decide_eq_true selected
            have member : parent ∈ role.parents :=
              List.mem_reverse.mp (List.mem_of_find?_eq_some closing)
            rcases List.mem_cons.mp onPath with rfl | later
            · exact .single (step parent member)
            · exact (below parent later).tail (step parent member)
          · simp only [run_run_bind] at ran
            rcases loopRan : (forIn role.parents PUnit.unit fun parent _ => do
                source.visit (name :: path) parent
                pure (ForInStep.yield PUnit.unit)).run.run memo with ⟨loopResult, afterLoop⟩
            rw [loopRan] at ran
            cases loopResult with
            | error e' =>
                cases ran
                refine forIn_run_error (fun parent member _ _ _ parentRan => ?_) loopRan
                refine ih notOnPath role found parent (fun p onPath => ?_) parentRan
                rcases List.mem_cons.mp onPath with rfl | later
                · exact .single (step parent member)
                · exact (below p later).tail (step parent member)
            | ok done =>
                -- after the parents only a parent that is not remembered can fail
                simp only [run_number] at ran
                rcases inheritedRan : (role.parents.mapM inherited).run.run
                    { afterLoop with table := (afterLoop.table.internAll role.permissions).2 } with
                  ⟨inheritedResult, afterInherited⟩
                rw [inheritedRan] at ran
                cases inheritedResult with
                | error e' =>
                    cases ran
                    obtain ⟨parent, rfl⟩ := mapM_inherited_error inheritedRan
                    trivial
                | ok _ =>
                    simp only [run_remember] at ran
                    cases ran
    · simp only [run_run_throw] at ran
      cases ran
      trivial

theorem resolve_justified (graph : RealmGraph) (name : String) {memo memo' : RoleMemo}
    {e : ExpandError} (ran : (source.resolve name).run.run memo = (.error e, memo')) :
    e.Justified source graph := by
  unfold resolve at ran
  rw [run_run_bind] at ran
  rcases visitRan : (source.visit [] name).run.run memo with ⟨visited, afterVisit⟩
  rw [visitRan] at ran
  cases visited with
  | error e' =>
      cases ran
      exact visit_justified graph [] name (fun _ member => nomatch member) visitRan
  | ok done =>
      simp only [run_run_bind, run_memoized] at ran
      cases found : afterVisit.resolved.lookup name with
      | none =>
          rw [found] at ran
          cases ran
          trivial
      | some permissions =>
          rw [found] at ran
          cases ran

end RoleSource

theorem ConditionIndex.indexes_error {ix : ConditionIndex} {slots : List Slot} {e : ExpandError}
    (failed : ix.indexes slots = .error e) : ∃ slot, e = .unknownCondition slot := by
  have indexFailed : ∀ slot e, ix.index slot = .error e → e = .unknownCondition slot := by
    intro slot e looked
    unfold ConditionIndex.index at looked
    split at looked
    · cases looked
    · cases looked
      rfl
  unfold ConditionIndex.indexes at failed
  split at failed
  · cases failed
  · next slot =>
    cases single : ix.index slot with
    | error e' =>
        rw [single] at failed
        cases failed
        exact ⟨slot, indexFailed slot _ single⟩
    | ok index =>
        rw [single] at failed
        cases failed
  · cases all : slots.mapM ix.index with
    | error e' =>
        rw [all] at failed
        cases failed
        obtain ⟨slot, -, looked⟩ := exists_of_mapM_eq_error all
        exact ⟨slot, indexFailed slot _ looked⟩
    | ok numbers =>
        rw [all] at failed
        cases failed

theorem RealmGraph.parentPositions_error {graph : RealmGraph} {realm : Realm} {e : ExpandError}
    (failed : graph.parentPositions realm = .error e) : ∃ name, e = .unknownRealm name := by
  obtain ⟨name, -, positioned⟩ := exists_of_mapM_eq_error failed
  unfold RealmGraph.position at positioned
  split at positioned
  · cases positioned
  · cases positioned
    exact ⟨name, rfl⟩

/-- With distinct realm names, an edge between positions is an edge between the names there. -/
theorem RealmGraph.nameStep_of_step {graph : RealmGraph} (distinct : graph.names.Nodup)
    {a c : Nat} (step : graph.Step a c) :
    graph.NameStep ((graph.names[a]?).getD "") ((graph.names[c]?).getD "") := by
  obtain ⟨realm, parents, found, positions, listed⟩ := step
  obtain ⟨parent, parentListed, positioned⟩ := (RealmGraph.mem_parentPositions positions).mp listed
  rw [(RealmGraph.position_eq_ok_iff distinct).mp positioned, RealmGraph.getElem?_names, found]
  exact ⟨realm, (RealmGraph.realm?_eq_some_iff distinct).mpr ⟨List.mem_of_getElem? found, rfl⟩,
    parentListed⟩

namespace Walker

variable {walker : Walker}

theorem grant_justified {r b : Nat} {binding : Binding} {memo memo' : WalkMemo} {e : ExpandError}
    (ran : (walker.grant r b binding).run.run memo = (.error e, memo')) :
    e.Justified walker.source walker.graph := by
  unfold grant at ran
  rw [run_run_bind, run_resolving] at ran
  rcases resolveRan : (walker.source.resolve binding.role).run.run memo.roles with
    ⟨resolved, roles⟩
  rw [resolveRan] at ran
  cases resolved with
  | error e' =>
      cases ran
      exact RoleSource.resolve_justified walker.graph binding.role resolveRan
  | ok permissions =>
      simp only [run_run_bind, run_liftExcept] at ran
      cases looked : walker.conditions.indexes
          ((List.range binding.conditions.length).map (Slot.ofIndices r b)) with
      | error e' =>
          simp only [looked] at ran
          cases ran
          obtain ⟨slot, rfl⟩ := ConditionIndex.indexes_error looked
          trivial
      | ok conditions =>
          simp only [looked, run_run_pure] at ran
          cases ran

/-- The walk of a realm's bindings ends early only on a failed grant. -/
theorem bindingGrants_justified (r : Nat) :
    ∀ (items : List (Binding × Nat)) {memo memo' : WalkMemo} {trace : Trace},
      (walker.bindingGrants r none items).run memo = (trace, memo') →
      ∀ e, trace.stop = some e → e.Justified walker.source walker.graph
  | [], memo, memo', trace, ran, e, stopped => by
      cases ran
      cases stopped
  | (binding, b) :: more, memo, memo', trace, ran, e, stopped => by
      rw [run_bindingGrants_cons] at ran
      rcases grantRan : (walker.grant r b binding).run.run memo with ⟨result, afterGrant⟩
      rw [grantRan] at ran
      cases result with
      | error e' =>
          cases ran
          cases stopped
          exact grant_justified grantRan
      | ok pair =>
          obtain ⟨permissions, conditions⟩ := pair
          dsimp only at ran
          rcases restRan : (walker.bindingGrants r none more).run afterGrant with ⟨rest, afterRest⟩
          rw [restRan] at ran
          cases ran
          rw [Trace.andThen_of_stop_none rest rfl] at stopped
          exact bindingGrants_justified r more restRan e stopped

/-- Every error that the walks from the parents of a realm end with is justified when each
walk's is. -/
theorem foldParents_justified (depth : Nat) :
    ∀ {parents : List Nat}, (∀ p ∈ parents, ∀ memo trace memo',
      (walker.walkFrom p (depth + 1) none).run memo = (trace, memo') →
        ∀ e, trace.stop = some e → e.Justified walker.source walker.graph) →
    ∀ {start trace : Trace} {memo memo' : WalkMemo},
      (∀ e, start.stop = some e → e.Justified walker.source walker.graph) →
      (parents.foldlM (walker.parentStep depth) start).run memo = (trace, memo') →
      ∀ e, trace.stop = some e → e.Justified walker.source walker.graph
  | [], _, start, trace, memo, memo', justified, ran => by
      cases ran
      exact justified
  | p :: more, walks, start, trace, memo, memo', justified, ran => by
      rw [List.foldlM_cons] at ran
      rcases stepRan : (walker.parentStep depth start p).run memo with ⟨middle, afterStep⟩
      rw [run_bind_of_run_eq stepRan] at ran
      have middleJustified : ∀ e, middle.stop = some e → e.Justified walker.source walker.graph := by
        rw [parentStep] at stepRan
        split at stepRan
        · cases stepRan
          exact justified
        · next running =>
          rcases walkRan : (walker.walkFrom p (depth + 1) none).run memo with ⟨next, afterWalk⟩
          rw [run_bind_of_run_eq walkRan] at stepRan
          cases stepRan
          rw [Trace.andThen_of_stop_none next (Option.not_isSome_iff_eq_none.mp running)]
          exact walks p List.mem_cons_self memo next _ walkRan
      exact foldParents_justified depth
        (fun p' member => walks p' (List.mem_cons_of_mem p member)) middleJustified ran

/-- A walk ends early only with a justified error. It carries the chain of realms it came
through: each realm there reaches every realm after it in the chain, and the chain, one realm
longer than the depth, cannot outgrow the realms without repeating one. -/
theorem walkFrom_justified (distinct : walker.graph.names.Nodup) (r depth : Nat) :
    ∀ trail : List Nat, trail.length = depth → (∀ x ∈ r :: trail, x < walker.graph.size) →
      (r :: trail).Pairwise (fun deeper shallower => Relation.TransGen walker.graph.Step shallower deeper) →
      ∀ memo trace memo', (walker.walkFrom r depth none).run memo = (trace, memo') →
        ∀ e, trace.stop = some e → e.Justified walker.source walker.graph := by
  induction r, depth using walkFrom_induction walker with
  | deep r depth deep =>
      -- the chain is longer than there are realms, so it repeats one: a cycle
      intro trail long inRange chained memo trace memo' ran e stopped
      rw [walkFrom_deep rfl deep] at ran
      cases ran
      cases stopped
      have repeated : ¬ (r :: trail).Nodup := by
        intro fresh
        have within : r :: trail ⊆ List.range walker.graph.size :=
          fun x member => List.mem_range.mpr (inRange x member)
        have fits := (fresh.subperm within).length_le
        rw [List.length_cons, List.length_range, long] at fits
        omega
      obtain ⟨x, cycle⟩ := exists_self_of_pairwise_of_not_nodup chained repeated
      exact ⟨_, cycle.lift _ fun _ _ step => RealmGraph.nameStep_of_step distinct step⟩
  | missing r depth notDeep missing =>
      intro _ _ _ _ memo trace memo' ran e stopped
      rw [walkFrom_missing rfl notDeep missing] at ran
      cases ran
      cases stopped
  | found r depth realm notDeep found ih =>
      intro trail long inRange chained memo trace memo' ran
      rw [walkFrom_none_found notDeep found] at ran
      rcases ownRan : (walker.bindingGrants r none realm.bindings.zipIdx).run memo with
        ⟨own, afterOwn⟩
      have ownJustified := bindingGrants_justified r _ ownRan
      rw [run_bind_of_run_eq ownRan] at ran
      split at ran
      · cases ran
        exact ownJustified
      · next running =>
        have ownRunning : own.stop = none := Option.not_isSome_iff_eq_none.mp running
        split at ran
        · next e unknown =>
            cases ran
            rw [Trace.andThen_of_stop_none _ ownRunning]
            intro e' stopped
            cases stopped
            obtain ⟨name, rfl⟩ := RealmGraph.parentPositions_error unknown
            trivial
        · next parents positions =>
            -- each parent is walked one step further along the chain
            refine foldParents_justified depth (fun p listed => ?_) ownJustified ran
            have step : walker.graph.Step r p := ⟨realm, parents, found, positions, listed⟩
            obtain ⟨name, -, positioned⟩ := (RealmGraph.mem_parentPositions positions).mp listed
            have parentInRange : p < walker.graph.size := by
              have bound := (List.getElem?_eq_some_iff.mp
                ((RealmGraph.position_eq_ok_iff distinct).mp positioned)).1
              rwa [RealmGraph.names, List.length_map] at bound
            refine ih p (r :: trail) (by rw [List.length_cons, long]) ?_ ?_
            · intro x member
              rcases List.mem_cons.mp member with rfl | earlier
              · exact parentInRange
              · exact inRange x earlier
            · refine List.pairwise_cons.mpr ⟨fun x member => ?_, chained⟩
              rcases List.mem_cons.mp member with rfl | earlier
              · exact .single step
              · exact (List.rel_of_pairwise_cons chained earlier).tail step

theorem walk_justified (distinct : walker.graph.names.Nodup) {name : String} {memo memo' : WalkMemo}
    {trace : Trace} (ran : (walker.walk name none).run memo = (trace, memo')) :
    ∀ e, trace.stop = some e → e.Justified walker.source walker.graph := by
  cases positioned : walker.graph.position name with
  | error e' =>
      rw [walk_of_unknown positioned] at ran
      cases ran
      intro e stopped
      cases stopped
      unfold RealmGraph.position at positioned
      split at positioned
      · cases positioned
      · cases positioned
        trivial
  | ok r =>
      rw [walk_of_position positioned] at ran
      have inRange : r < walker.graph.size := by
        have bound := (List.getElem?_eq_some_iff.mp
          ((RealmGraph.position_eq_ok_iff distinct).mp positioned)).1
        rwa [RealmGraph.names, List.length_map] at bound
      refine walkFrom_justified distinct r 0 [] rfl ?_ (List.pairwise_singleton _ r) memo trace
        memo' ran
      intro x member
      rw [List.mem_singleton.mp member]
      exact inRange

/-- The search for services reports a realm cycle only at a realm that reaches itself: every
realm on its path reaches the realm being visited. -/
theorem visitServices_justified (path : List String) (name : String)
    (below : ∀ p ∈ path, Relation.TransGen walker.graph.NameStep p name)
    {memo memo' : WalkMemo} {e : ExpandError}
    (ran : (walker.visitServices path name).run.run memo = (.error e, memo')) :
    e.Justified walker.source walker.graph := by
  induction path, name using visitServices.induct walker generalizing memo e memo' with
  | case1 path name ih =>
  rw [visitServices] at ran
  simp only [run_run_bind, run_knownServices] at ran
  by_cases remembered : (memo.services.lookup name).isSome
  · simp only [remembered, if_true, run_run_pure] at ran
    cases ran
  simp only [remembered, Bool.false_eq_true, ↓reduceIte] at ran
  split at ran
  · simp only [run_run_throw] at ran
    cases ran
    trivial
  · next realm found =>
    split at ran
    · simp only [run_run_throw] at ran
      cases ran
      trivial
    · split at ran
      · next onPath =>
        -- the realm is on its own path
        simp only [run_run_throw] at ran
        cases ran
        exact ⟨name, below name onPath⟩
      · next notOnPath =>
        simp only [run_run_bind] at ran
        rcases loopRan : (forIn (RealmGraph.parentNames realm) PUnit.unit fun parent _ => do
            walker.visitServices (name :: path) parent
            pure (ForInStep.yield PUnit.unit)).run.run memo with ⟨loopResult, afterLoop⟩
        rw [loopRan] at ran
        cases loopResult with
        | error e' =>
            cases ran
            refine forIn_run_error (fun parent listed _ _ _ parentRan => ?_) loopRan
            have step : walker.graph.NameStep name parent := ⟨realm, found, listed⟩
            refine ih realm found notOnPath parent (fun p member => ?_) parentRan
            rcases List.mem_cons.mp member with rfl | earlier
            · exact .single step
            · exact (below p earlier).tail step
        | ok done =>
            simp only [run_run_get, run_run_modify] at ran
            cases ran

theorem services_justified {name : String} {memo memo' : WalkMemo} {e : ExpandError}
    (ran : (walker.services name).run.run memo = (.error e, memo')) :
    e.Justified walker.source walker.graph := by
  unfold services at ran
  split at ran
  · simp only [run_run_bind, run_run_throw] at ran
    cases ran
    trivial
  · simp only [run_run_bind] at ran
    rcases visitRan : (walker.visitServices [] name).run.run memo with ⟨visited, afterVisit⟩
    rw [visitRan] at ran
    cases visited with
    | error e' =>
        cases ran
        exact visitServices_justified [] name (fun _ member => nomatch member) visitRan
    | ok done =>
        simp only [run_knownServices] at ran
        cases ran

theorem expandRealms_justified (distinct : walker.graph.names.Nodup) :
    ∀ (realms : List Realm) {memo memo' : WalkMemo} {e : ExpandError},
      (walker.expandRealms realms).run.run memo = (.error e, memo') →
      e.Justified walker.source walker.graph
  | [], memo, memo', e, ran => by
      simp only [expandRealms, run_run_pure] at ran
      cases ran
  | realm :: more, memo, memo', e, ran => by
      rw [expandRealms] at ran
      simp only [run_run_bind] at ran
      rcases walkRan : (walker.walk realm.name none).run memo with ⟨trace, afterWalk⟩
      rw [run_run_liftM_of_run walkRan] at ran
      simp only [run_run_liftM_except] at ran
      cases compacted : trace.compact with
      | error e' =>
          -- the walk ended early with the error
          rw [compacted] at ran
          cases ran
          unfold Trace.compact at compacted
          split at compacted
          · next e' stopped =>
            cases compacted
            exact walk_justified distinct walkRan _ stopped
          · cases compacted
      | ok bindings =>
          rw [compacted] at ran
          simp only at ran
          rcases servicesRan : (walker.services realm.name).run.run afterWalk with
            ⟨answer, afterServices⟩
          rw [servicesRan] at ran
          cases answer with
          | error e' =>
              cases ran
              exact services_justified servicesRan
          | ok services =>
              simp only at ran
              rcases restRan : (walker.expandRealms more).run.run afterServices with
                ⟨restResult, afterRest⟩
              rw [restRan] at ran
              cases restResult with
              | error e' =>
                  cases ran
                  exact expandRealms_justified distinct more restRan
              | ok rest =>
                  simp only [run_run_pure] at ran
                  cases ran

end Walker

/-- Registering condition slots fails only on an empty condition. -/
theorem ConditionTable.addAll_error :
    ∀ (table : ConditionTable) {items : List (Slot × Condition)} {e : ExpandError},
      table.addAll items = .error e → ∃ slot, e = .emptyCondition slot
  | table, [], e, failed => by cases failed
  | table, (slot, condition) :: more, e, failed => by
      cases added : table.add slot condition with
      | error e' =>
          simp only [ConditionTable.addAll, added] at failed
          cases failed
          unfold ConditionTable.add at added
          split at added
          · cases added
          · split at added
            · cases added
              exact ⟨slot, rfl⟩
            · dsimp only at added
              split at added <;> cases added
      | ok pair =>
          obtain ⟨index, middle⟩ := pair
          rw [ConditionTable.addAll_cons_of_add added] at failed
          exact ConditionTable.addAll_error middle failed

/-- Every error of an expansion is justified: its role cycles are cycles of custom roles and its
realm cycles come from cycles of the working realms. -/
theorem Config.expandUnchecked_justified {config : Config} {registry : Registry} {project : String}
    {e : ExpandError} (failed : config.expandUnchecked registry project = .error e) :
    e.Justified ⟨registry, config.customRoles⟩ (config.workingGraph registry project) := by
  rw [Config.expandUnchecked_eq] at failed
  cases added : ({} : ConditionTable).addAll (config.workingGraph registry project).slots with
  | error e' =>
      rw [added] at failed
      cases failed
      obtain ⟨slot, rfl⟩ := ConditionTable.addAll_error {} added
      trivial
  | ok table =>
      rw [added] at failed
      rcases walked : ((config.walkerOf registry project table.finalize.1).expandRealms
          (config.workingGraph registry project).realms).run.run {} with ⟨outcome, memo⟩
      simp only [bind, Except.bind, walked] at failed
      cases outcome with
      | error e' =>
          cases failed
          exact Walker.expandRealms_justified Config.workingGraph_names_nodup _ walked
      | ok entries => cases failed

end RealmAccess
