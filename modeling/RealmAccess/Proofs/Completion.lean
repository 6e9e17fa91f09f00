import Mathlib.Data.List.Perm.Subperm
import RealmAccess.Proofs.ConditionTable
import RealmAccess.Proofs.Expand
import RealmAccess.Proofs.Resolvable
/-!
# Walks that run to their end

A walk ends early on a failed grant, on an unknown parent, or when its path grows longer than
there are realms; a search for services ends early on an unknown realm or a realm met again on
its path. None of these happens for a walker whose roles resolve, whose condition slots are all
numbered, whose realms name only known parents and whose realm graph has no cycle
(`Walker.Runnable`).

The depth bound is the one place where counting matters: a walk carries the path it came along,
with no realm twice since the graph has no cycle, so the path is never longer than there are
realms.
-/

namespace RealmAccess

theorem RealmGraph.realm?_isSome_of_mem {graph : RealmGraph} {name : String}
    (member : name ∈ graph.names) : (graph.realm? name).isSome := by
  obtain ⟨realm, realmMember, rfl⟩ := List.mem_map.mp member
  exact List.find?_isSome.mpr ⟨realm, realmMember, beq_self_eq_true _⟩

theorem RealmGraph.mem_realms_of_realm? {graph : RealmGraph} {name : String} {realm : Realm}
    (found : graph.realm? name = some realm) : realm ∈ graph.realms :=
  List.mem_of_find?_eq_some found

namespace Walker

/-- What makes every walk and every search for services run to its end. -/
structure Runnable (walker : Walker) : Prop where
  resolvable : walker.source.Resolvable
  rolesKnown : ∀ realm ∈ walker.graph.realms, ∀ binding ∈ realm.bindings,
    RoleKnown walker.source.registry walker.source.customNames binding.role
  indexed : ∀ item ∈ walker.graph.slots, ∃ index, walker.conditions.index item.1 = .ok index
  parentsKnown : ∀ realm ∈ walker.graph.realms, ∀ name ∈ RealmGraph.parentNames realm,
    name ∈ walker.graph.names
  distinct : walker.graph.names.Nodup
  stepAcyclic : ∀ r, ¬ Relation.TransGen walker.graph.Step r r
  namesAcyclic : ∀ name, ¬ Relation.TransGen walker.graph.NameStep name name

variable {walker : Walker}

theorem grant_ok (runnable : walker.Runnable) {r b : Nat} {realm : Realm} {binding : Binding}
    (found : walker.graph.realms[r]? = some realm) (bindingFound : realm.bindings[b]? = some binding)
    {memo memo' : WalkMemo} {result : Except ExpandError (List Nat × List Nat)}
    (sound : memo.roles.Sound walker.source)
    (ran : (walker.grant r b binding).run.run memo = (result, memo')) :
    ∃ answer, result = .ok answer := by
  unfold grant at ran
  rw [run_run_bind, run_resolving] at ran
  rcases resolveRan : (walker.source.resolve binding.role).run.run memo.roles with
    ⟨resolved, roles⟩
  obtain ⟨permissions, rfl⟩ := RoleSource.resolve_ok runnable.resolvable
    (runnable.rolesKnown realm (List.mem_of_getElem? found) binding
      (List.mem_of_getElem? bindingFound)) sound resolveRan
  rw [resolveRan] at ran
  have slotsIndexed : ∀ slot ∈ bindingSlots r b binding,
      ∃ index, walker.conditions.index slot = .ok index := by
    intro slot member
    obtain ⟨p, inRange, rfl⟩ := List.mem_map.mp member
    have bound := List.mem_range.mp inRange
    have located : walker.graph.conditionAt r b p = some binding.conditions[p] := by
      rw [RealmGraph.conditionAt_eq found bindingFound, List.getElem?_eq_getElem bound]
    exact runnable.indexed _ (RealmGraph.mem_slots_of_conditionAt located)
  obtain ⟨conditions, looked⟩ := ConditionIndex.indexes_ok slotsIndexed
  simp only [bindingSlots] at looked
  simp only [run_run_bind, run_liftExcept, looked, run_run_pure] at ran
  cases ran
  exact ⟨_, rfl⟩

/-- The bindings of a realm, walked without a limit, are all granted. -/
theorem bindingGrants_runs (runnable : walker.Runnable) {r : Nat} {realm : Realm}
    (found : walker.graph.realms[r]? = some realm) :
    ∀ (items : List (Binding × Nat)), (∀ item ∈ items, realm.bindings[item.2]? = some item.1) →
      ∀ {memo memo' : WalkMemo} {trace : Trace}, memo.roles.Sound walker.source →
        (walker.bindingGrants r none items).run memo = (trace, memo') → trace.stop = none
  | [], _, memo, memo', trace, sound, ran => by
      cases ran
      rfl
  | (binding, b) :: more, located, memo, memo', trace, sound, ran => by
      rw [run_bindingGrants_cons] at ran
      rcases grantRan : (walker.grant r b binding).run.run memo with ⟨result, afterGrant⟩
      obtain ⟨⟨permissions, conditions⟩, rfl⟩ :=
        grant_ok runnable found (located _ List.mem_cons_self) sound grantRan
      obtain ⟨grantKept, -⟩ := grant_spec sound grantRan
      rw [grantRan] at ran
      dsimp only at ran
      rcases restRan : (walker.bindingGrants r none more).run afterGrant with ⟨rest, afterRest⟩
      have restRuns := bindingGrants_runs runnable found more
        (fun item member => located item (List.mem_cons_of_mem _ member)) grantKept.sound restRan
      rw [restRan] at ran
      cases ran
      rw [Trace.andThen_of_stop_none rest rfl]
      exact restRuns

/-- The walks from the parents of a realm, one after another, run to their end when each does. -/
theorem foldParents_runs (depth : Nat) :
    ∀ {parents : List Nat}, (∀ p ∈ parents, ∀ memo trace memo', memo.roles.Sound walker.source →
      (walker.walkFrom p (depth + 1) none).run memo = (trace, memo') → trace.stop = none) →
    ∀ {start trace : Trace} {memo memo' : WalkMemo}, start.stop = none →
      memo.roles.Sound walker.source →
      (parents.foldlM (walker.parentStep depth) start).run memo = (trace, memo') →
      trace.stop = none
  | [], _, start, trace, memo, memo', running, sound, ran => by
      cases ran
      exact running
  | p :: more, runs, start, trace, memo, memo', running, sound, ran => by
      rw [List.foldlM_cons] at ran
      rcases stepRan : (walker.parentStep depth start p).run memo with ⟨middle, afterStep⟩
      rw [run_bind_of_run_eq stepRan] at ran
      rw [parentStep, running] at stepRan
      simp only [Option.isSome_none, Bool.false_eq_true, if_false] at stepRan
      rcases walkRan : (walker.walkFrom p (depth + 1) none).run memo with ⟨next, afterWalk⟩
      have nextRuns := runs p List.mem_cons_self memo next afterWalk sound walkRan
      obtain ⟨walkKept, -, -⟩ := walksFrom walker p (depth + 1) memo next afterWalk sound walkRan
      rw [run_bind_of_run_eq walkRan] at stepRan
      cases stepRan
      have middleRuns : (start.andThen next).stop = none := by
        rw [Trace.andThen_of_stop_none next running]
        exact nextRuns
      exact foldParents_runs depth (fun p' member => runs p' (List.mem_cons_of_mem p member))
        middleRuns walkKept.sound ran

/-- A walk without a limit runs to its end from a realm reached along `trail`, a path with no
realm twice that reaches the realm. -/
theorem walkFrom_runs (runnable : walker.Runnable) (r depth : Nat) :
    ∀ trail : List Nat, trail.length = depth → (r :: trail).Nodup →
      (∀ x ∈ r :: trail, x < walker.graph.size) →
      (∀ x ∈ trail, Relation.TransGen walker.graph.Step x r) →
      ∀ memo trace memo', memo.roles.Sound walker.source →
        (walker.walkFrom r depth none).run memo = (trace, memo') → trace.stop = none := by
  induction r, depth using walkFrom_induction walker with
  | deep r depth deep =>
      -- a path with no realm twice is no longer than there are realms
      intro trail long distinct inRange _ memo trace memo' _ _
      have within : r :: trail ⊆ List.range walker.graph.size :=
        fun x member => List.mem_range.mpr (inRange x member)
      have fits := (distinct.subperm within).length_le
      rw [List.length_cons, List.length_range, long] at fits
      omega
  | missing r depth notDeep missing =>
      intro _ _ _ _ _ memo trace memo' _ ran
      rw [walkFrom_missing rfl notDeep missing] at ran
      cases ran
      rfl
  | found r depth realm notDeep found ih =>
      intro trail long distinct inRange below memo trace memo' sound ran
      rw [walkFrom_none_found notDeep found] at ran
      rcases ownRan : (walker.bindingGrants r none realm.bindings.zipIdx).run memo with
        ⟨own, afterOwn⟩
      have ownRuns := bindingGrants_runs runnable found _
        (fun item member => List.mem_zipIdx_iff_getElem?.mp member) sound ownRan
      obtain ⟨ownKept, -, -⟩ := bindingGrants_spec r _ sound ownRan
      rw [run_bind_of_run_eq ownRan] at ran
      split at ran
      · next stopped =>
          rw [ownRuns] at stopped
          cases stopped
      · split at ran
        · next e unknown =>
            obtain ⟨parents, positions⟩ := RealmGraph.parentPositions_ok
              (runnable.parentsKnown realm (List.mem_of_getElem? found))
            rw [positions] at unknown
            cases unknown
        · next parents positions =>
            -- each parent is walked one step further along the path
            refine foldParents_runs depth (fun p listed => ?_) ownRuns
              ownKept.sound ran
            have step : walker.graph.Step r p := ⟨realm, parents, found, positions, listed⟩
            obtain ⟨name, -, positioned⟩ := (RealmGraph.mem_parentPositions positions).mp listed
            have named := (RealmGraph.position_eq_ok_iff runnable.distinct).mp positioned
            have parentInRange : p < walker.graph.size := by
              have bound := (List.getElem?_eq_some_iff.mp named).1
              rwa [RealmGraph.names, List.length_map] at bound
            have fresh : p ∉ r :: trail := by
              intro seen
              rcases List.mem_cons.mp seen with rfl | earlier
              · exact runnable.stepAcyclic p (.single step)
              · exact runnable.stepAcyclic p ((below p earlier).tail step)
            refine ih p (r :: trail) (by rw [List.length_cons, long])
              (List.nodup_cons.mpr ⟨fresh, distinct⟩) ?_ ?_
            · intro x member
              rcases List.mem_cons.mp member with rfl | earlier
              · exact parentInRange
              · exact inRange x earlier
            · intro x member
              rcases List.mem_cons.mp member with rfl | earlier
              · exact .single step
              · exact (below x earlier).tail step

/-- The walk from a realm, without a limit, runs to its end. -/
theorem walk_runs (runnable : walker.Runnable) {name : String} {r : Nat}
    (positioned : walker.graph.position name = .ok r) {memo memo' : WalkMemo} {trace : Trace}
    (sound : memo.roles.Sound walker.source)
    (ran : (walker.walk name none).run memo = (trace, memo')) : trace.stop = none := by
  rw [walk_of_position positioned] at ran
  have named := (RealmGraph.position_eq_ok_iff runnable.distinct).mp positioned
  have inRange : r < walker.graph.size := by
    have bound := (List.getElem?_eq_some_iff.mp named).1
    rwa [RealmGraph.names, List.length_map] at bound
  refine walkFrom_runs runnable r 0 [] rfl (List.nodup_singleton r) ?_
    (fun _ member => (nomatch member)) memo trace memo' sound ran
  intro x member
  rw [List.mem_singleton.mp member]
  exact inRange

/-- A search for the services of a known realm succeeds when the realm is reached from every
realm on the path. -/
theorem visitServices_runs (runnable : walker.Runnable) (path : List String) (name : String)
    (known : name ∈ walker.graph.names)
    (below : ∀ p ∈ path, Relation.TransGen walker.graph.NameStep p name)
    {memo memo' : WalkMemo} {result : Except ExpandError Unit}
    (ran : (walker.visitServices path name).run.run memo = (result, memo')) : result = .ok () := by
  induction path, name using visitServices.induct walker generalizing memo result memo' with
  | case1 path name ih =>
  rw [visitServices] at ran
  simp only [run_run_bind, run_knownServices] at ran
  by_cases remembered : (memo.services.lookup name).isSome
  · simp only [remembered, if_true, run_run_pure] at ran
    obtain ⟨rfl, rfl⟩ := ran
    rfl
  simp only [remembered, Bool.false_eq_true, ↓reduceIte] at ran
  split at ran
  · exfalso
    have unknown : walker.graph.realm? name = none := by assumption
    have present := RealmGraph.realm?_isSome_of_mem known
    rw [unknown] at present
    cases present
  · next realm found =>
    have working := RealmGraph.mem_realms_of_realm? found
    split at ran
    · next missing finding =>
      exfalso
      have selected := List.find?_some finding
      have present := RealmGraph.realm?_isSome_of_mem
        (runnable.parentsKnown realm working missing (List.mem_of_find?_eq_some finding))
      rw [Option.isNone_iff_eq_none.mp selected] at present
      cases present
    · split at ran
      · next onPath => exact absurd (below name onPath) (runnable.namesAcyclic name)
      · next notOnPath =>
        simp only [run_run_bind] at ran
        rcases loopRan : (forIn (RealmGraph.parentNames realm) PUnit.unit fun parent _ => do
            walker.visitServices (name :: path) parent
            pure (ForInStep.yield PUnit.unit)).run.run memo with ⟨loopResult, afterLoop⟩
        have stepsOk : ∀ parent ∈ RealmGraph.parentNames realm, ∀ memo result memo',
            True → (walker.visitServices (name :: path) parent).run.run memo = (result, memo') →
            result = .ok () ∧ True := by
          intro parent listed memo result memo' _ ran
          have step : walker.graph.NameStep name parent := ⟨realm, found, listed⟩
          refine ⟨ih realm found notOnPath parent (runnable.parentsKnown realm working parent listed)
            ?_ ran, trivial⟩
          intro p member
          rcases List.mem_cons.mp member with rfl | earlier
          · exact .single step
          · exact (below p earlier).tail step
        have loopOk := forIn_run_ok (fun _ => True) stepsOk trivial loopRan
        rw [loopRan, loopOk] at ran
        simp only [run_run_get, run_run_modify] at ran
        obtain ⟨rfl, rfl⟩ := ran
        rfl

/-- The services of a known realm are found. -/
theorem services_runs (runnable : walker.Runnable) {name : String}
    (known : name ∈ walker.graph.names) {memo memo' : WalkMemo}
    {result : Except ExpandError (Option (List String))}
    (ran : (walker.services name).run.run memo = (result, memo')) :
    ∃ answer, result = .ok answer := by
  unfold services at ran
  split at ran
  · next unknown =>
    have present := RealmGraph.realm?_isSome_of_mem known
    rw [← Option.not_isSome, present] at unknown
    cases unknown
  · simp only [run_run_bind] at ran
    rcases visitRan : (walker.visitServices [] name).run.run memo with ⟨visited, afterVisit⟩
    have visitOk := visitServices_runs runnable [] name known (fun _ member => (nomatch member))
      visitRan
    rw [visitRan, visitOk] at ran
    simp only [run_knownServices] at ran
    cases ran
    exact ⟨_, rfl⟩

theorem compact_of_stop_none {trace : Trace} (running : trace.stop = none) :
    trace.compact = .ok (compact trace.grants) := by
  unfold Trace.compact
  rw [running]

/-- Expanding working realms one after another succeeds. -/
theorem expandRealms_runs (runnable : walker.Runnable) :
    ∀ (realms : List Realm), (∀ realm ∈ realms, realm ∈ walker.graph.realms) →
      ∀ {memo memo' : WalkMemo}
        {result : Except ExpandError (List (String × List BindingRecord × Option (List String)))},
        memo.roles.Sound walker.source → ServicesSound walker.graph memo →
        (walker.expandRealms realms).run.run memo = (result, memo') → ∃ entries, result = .ok entries
  | [], _, memo, memo', result, _, _, ran => by
      simp only [expandRealms, run_run_pure] at ran
      cases ran
      exact ⟨[], rfl⟩
  | realm :: more, working, memo, memo', result, sound, servicesSound, ran => by
      rw [expandRealms] at ran
      simp only [run_run_bind] at ran
      have named : realm.name ∈ walker.graph.names :=
        List.mem_map_of_mem (working realm List.mem_cons_self)
      obtain ⟨r, positioned⟩ := RealmGraph.position_ok_of_mem named
      rcases walkRan : (walker.walk realm.name none).run memo with ⟨trace, afterWalk⟩
      have running := walk_runs runnable positioned sound walkRan
      have walkedFrom := walkRan
      rw [walk_of_position positioned] at walkedFrom
      obtain ⟨walkKept, -, -⟩ := walksFrom walker r 0 memo trace afterWalk sound walkedFrom
      rw [run_run_liftM_of_run walkRan] at ran
      simp only [run_run_liftM_except, compact_of_stop_none running] at ran
      have servicesAfterWalk : ServicesSound walker.graph afterWalk := by
        unfold ServicesSound
        rw [walkKept.services]
        exact servicesSound
      rcases servicesRan : (walker.services realm.name).run.run afterWalk with
        ⟨answer, afterServices⟩
      obtain ⟨services, rfl⟩ := services_runs runnable named servicesRan
      obtain ⟨servicesRoles, servicesSound', -⟩ :=
        services_spec walker realm.name servicesAfterWalk servicesRan
      rw [servicesRan] at ran
      simp only at ran
      have restSoundAtStart : afterServices.roles.Sound walker.source := by
        rw [servicesRoles]
        exact walkKept.sound
      rcases restRan : (walker.expandRealms more).run.run afterServices with ⟨restResult, afterRest⟩
      obtain ⟨rest, rfl⟩ := expandRealms_runs runnable more
        (fun other member => working other (List.mem_cons_of_mem realm member))
        restSoundAtStart servicesSound' restRan
      rw [restRan] at ran
      simp only [run_run_pure] at ran
      cases ran
      exact ⟨_, rfl⟩

end Walker

end RealmAccess
