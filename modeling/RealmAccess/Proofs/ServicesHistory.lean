import RealmAccess.Proofs.ResolutionHistory
/-!
# The services of a realm after any history

The search for the services of a realm walks the realms it inherits from, depth first, parents
first, and remembers the answer of every realm it finishes, across searches and also when a
search fails later on. What a search answers depends on the realm asked for only
(`realm_services_ignore_history`). When every realm the realm reaches is in the graph and none of
them inherits from itself (`RealmGraph.Grounded`), it answers the services that enforce the
realm: none, or their sorted list. Otherwise it fails, naming a realm it reaches that is missing or
that lies on a cycle (`RealmGraph.Explains`). And it answers what a fresh memo answers, errors
included. The record of every realm in an expansion carries those services.

As for roles, the memo stays settled: a realm's services are remembered only once the realm is
grounded, so two settled memos lead a search to the same result.
-/

namespace RealmAccess

namespace RealmGraph

variable {graph : RealmGraph}

/-! ### Grounded realms -/

/-- A realm whose services can be found: every realm it reaches is in the graph, and none of them
inherits from itself. -/
structure Grounded (graph : RealmGraph) (name : String) : Prop where
  present : ∀ reached, Relation.ReflTransGen graph.NameStep name reached →
    (graph.realm? reached).isSome
  acyclic : ∀ reached, Relation.ReflTransGen graph.NameStep name reached →
    ¬ Relation.TransGen graph.NameStep reached reached

theorem Grounded.of_reach {name reached : String} (grounded : graph.Grounded name)
    (chain : Relation.ReflTransGen graph.NameStep name reached) : graph.Grounded reached :=
  ⟨fun other more => grounded.present other (chain.trans more),
    fun other more => grounded.acyclic other (chain.trans more)⟩

theorem NameStep.mem_parentNames {child parent : String} {realm : Realm}
    (step : graph.NameStep child parent) (found : graph.realm? child = some realm) :
    parent ∈ parentNames realm := by
  obtain ⟨realm', found', member⟩ := step
  rw [found] at found'
  cases found'
  exact member

/-- A realm of the graph is grounded once all its parents are. -/
theorem grounded_of_parents {name : String} {realm : Realm} (found : graph.realm? name = some realm)
    (parents : ∀ parent ∈ parentNames realm, graph.Grounded parent) : graph.Grounded name := by
  refine ⟨fun reached chain => ?_, fun reached chain cycle => ?_⟩
  · rcases Relation.ReflTransGen.cases_head chain with rfl | ⟨parent, step, rest⟩
    · rw [found]
      rfl
    · exact (parents parent (step.mem_parentNames found)).present reached rest
  · rcases Relation.ReflTransGen.cases_head chain with rfl | ⟨parent, step, rest⟩
    · -- a cycle through the realm runs through a parent that reaches it
      obtain ⟨parent, step, back⟩ := Relation.TransGen.head'_iff.mp cycle
      exact (parents parent (step.mem_parentNames found)).acyclic _ back cycle
    · exact (parents parent (step.mem_parentNames found)).acyclic reached rest cycle

/-- A realm of the graph that is not grounded has a parent that is not. -/
theorem exists_parent_not_grounded {name : String} {realm : Realm}
    (found : graph.realm? name = some realm) (notGrounded : ¬ graph.Grounded name) :
    ∃ parent ∈ parentNames realm, ¬ graph.Grounded parent := by
  by_contra allGrounded
  refine notGrounded (grounded_of_parents found fun parent member => ?_)
  by_contra parentNot
  exact allGrounded ⟨parent, member, parentNot⟩

/-- What a failed search for the services of `name` reports: a realm it reaches that is not in
the graph, or a realm it reaches that inherits from itself. -/
def Explains (graph : RealmGraph) (name : String) : ExpandError → Prop
  | .unknownRealm missing =>
      Relation.ReflTransGen graph.NameStep name missing ∧ graph.realm? missing = none
  | .cycle .realm looping =>
      Relation.ReflTransGen graph.NameStep name looping ∧
        Relation.TransGen graph.NameStep looping looping
  | _ => False

/-- What a parent's search reports, the search from its child reports too. -/
theorem Explains.of_step {name parent : String} (step : graph.NameStep name parent) :
    ∀ {e : ExpandError}, graph.Explains parent e → graph.Explains name e
  | .unknownRealm _, ⟨reach, missing⟩ => ⟨.head step reach, missing⟩
  | .cycle .realm _, ⟨reach, cycle⟩ => ⟨.head step reach, cycle⟩
  | .cycle .role _, explained => explained
  | .invalid _, explained => explained
  | .unknownRole _, explained => explained
  | .invalidRole _, explained => explained
  | .unknownCondition _, explained => explained
  | .emptyCondition _, explained => explained

end RealmGraph

namespace Walker

variable {walker : Walker}

/-! ### The settled services memo -/

/-- Every realm whose services are remembered is grounded. -/
def ServicesSettled (graph : RealmGraph) (memo : WalkMemo) : Prop :=
  ∀ entry ∈ memo.services, graph.Grounded entry.1

theorem servicesSettled_empty (graph : RealmGraph) : ServicesSettled graph {} :=
  fun _ member => nomatch member

theorem ServicesSettled.grounded {graph : RealmGraph} {memo : WalkMemo}
    (settled : ServicesSettled graph memo) {name : String}
    (known : (memo.services.lookup name).isSome) : graph.Grounded name := by
  rw [List.lookup_isSome_iff] at known
  obtain ⟨entry, member, same⟩ := known
  rw [beq_iff_eq.mp same]
  exact settled entry member

/-- A search remembers the services of a realm only once it remembers those of every parent, so
only grounded realms are remembered. -/
theorem visitServices_settled (path : List String) (name : String) {memo memo' : WalkMemo}
    {result : Except ExpandError Unit}
    (kept : ServicesSound walker.graph memo ∧ ServicesSettled walker.graph memo)
    (ran : (walker.visitServices path name).run.run memo = (result, memo')) :
    ServicesSettled walker.graph memo' := by
  induction path, name using visitServices.induct walker generalizing memo memo' result with
  | case1 path name ih =>
  rw [visitServices] at ran
  simp only [run_run_bind, run_knownServices] at ran
  by_cases known : (memo.services.lookup name).isSome
  · simp only [known, if_true, run_run_pure] at ran
    cases ran
    exact kept.2
  simp only [known, Bool.false_eq_true, ↓reduceIte] at ran
  split at ran
  · simp only [run_run_throw] at ran
    cases ran
    exact kept.2
  · next realm found =>
    split at ran
    · simp only [run_run_throw] at ran
      cases ran
      exact kept.2
    · split at ran
      · simp only [run_run_throw] at ran
        cases ran
        exact kept.2
      · next notOnPath =>
        simp only [run_run_bind] at ran
        rcases loopRan : (forIn (RealmGraph.parentNames realm) PUnit.unit fun parent _ => do
            walker.visitServices (name :: path) parent
            pure (ForInStep.yield PUnit.unit)).run.run memo with ⟨loopResult, afterLoop⟩
        have loopKept : ServicesSettled walker.graph afterLoop :=
          (forIn_keeps
            (fun state => ServicesSound walker.graph state ∧ ServicesSettled walker.graph state)
            (fun parent _ state result state' keptHere parentRan =>
              ⟨(visitServices_finds walker (name :: path) parent state result state' keptHere.1
                parentRan).2.1, ih realm found notOnPath parent keptHere parentRan⟩)
            kept loopRan).2
        rw [loopRan] at ran
        cases loopResult with
        | error e =>
            cases ran
            exact loopKept
        | ok done =>
            obtain ⟨-, -, -, loopDone⟩ :=
              forIn_findsServices (fun parent _ => visitServices_finds walker (name :: path) parent)
                kept.1 loopRan
            simp only [run_run_get, run_run_modify] at ran
            cases ran
            intro entry member
            rcases List.mem_cons.mp member with rfl | earlier
            · exact RealmGraph.grounded_of_parents found fun parent listed =>
                loopKept.grounded (loopDone rfl parent listed)
            · exact loopKept entry earlier

/-- Every search keeps the services memo sound and settled. -/
theorem visitServices_keeps_settled (path : List String) (name : String) {memo memo' : WalkMemo}
    {result : Except ExpandError Unit}
    (kept : ServicesSound walker.graph memo ∧ ServicesSettled walker.graph memo)
    (ran : (walker.visitServices path name).run.run memo = (result, memo')) :
    ServicesSound walker.graph memo' ∧ ServicesSettled walker.graph memo' :=
  ⟨(visitServices_finds walker path name memo result memo' kept.1 ran).2.1,
    visitServices_settled path name kept ran⟩

/-! ### What a search ends with -/

/-- A search through a grounded realm succeeds from any memo when the realm is reached from every
realm on the path: meeting one of them again would close a cycle it reaches. -/
theorem visitServices_ok_of_grounded (path : List String) (name : String)
    (grounded : walker.graph.Grounded name)
    (below : ∀ p ∈ path, Relation.TransGen walker.graph.NameStep p name)
    {memo memo' : WalkMemo} {result : Except ExpandError Unit}
    (ran : (walker.visitServices path name).run.run memo = (result, memo')) : result = .ok () := by
  induction path, name using visitServices.induct walker generalizing memo result memo' with
  | case1 path name ih =>
  rw [visitServices] at ran
  simp only [run_run_bind, run_knownServices] at ran
  by_cases known : (memo.services.lookup name).isSome
  · simp only [known, if_true, run_run_pure] at ran
    obtain ⟨rfl, rfl⟩ := ran
    rfl
  simp only [known, Bool.false_eq_true, ↓reduceIte] at ran
  split at ran
  · exfalso
    have unknown : walker.graph.realm? name = none := by assumption
    have present := grounded.present name .refl
    rw [unknown] at present
    cases present
  · next realm found =>
    have step : ∀ parent ∈ RealmGraph.parentNames realm, walker.graph.NameStep name parent :=
      fun parent member => ⟨realm, found, member⟩
    split at ran
    · next missing finding =>
      exfalso
      have selected := List.find?_some finding
      have present := grounded.present missing
        (.single (step missing (List.mem_of_find?_eq_some finding)))
      rw [Option.isNone_iff_eq_none.mp selected] at present
      cases present
    · split at ran
      · next onPath => exact absurd (below name onPath) (grounded.acyclic name .refl)
      · next notOnPath =>
        simp only [run_run_bind] at ran
        rcases loopRan : (forIn (RealmGraph.parentNames realm) PUnit.unit fun parent _ => do
            walker.visitServices (name :: path) parent
            pure (ForInStep.yield PUnit.unit)).run.run memo with ⟨loopResult, afterLoop⟩
        have loopOk := forIn_run_ok (fun _ => True)
          (fun parent listed _ _ _ _ parentRan =>
            ⟨ih realm found notOnPath parent (grounded.of_reach (.single (step parent listed)))
              (fun p member => by
                rcases List.mem_cons.mp member with rfl | earlier
                · exact .single (step parent listed)
                · exact (below p earlier).tail (step parent listed)) parentRan, trivial⟩)
          trivial loopRan
        rw [loopRan, loopOk] at ran
        simp only [run_run_get, run_run_modify] at ran
        obtain ⟨rfl, rfl⟩ := ran
        rfl

/-- A search through a realm that is not grounded fails from a sound, settled memo: the memo does
not remember the realm, and the search meets it missing, on its own path, or with a parent that
is not grounded. -/
theorem visitServices_fails (path : List String) (name : String)
    (notGrounded : ¬ walker.graph.Grounded name) {memo memo' : WalkMemo}
    {result : Except ExpandError Unit}
    (kept : ServicesSound walker.graph memo ∧ ServicesSettled walker.graph memo)
    (ran : (walker.visitServices path name).run.run memo = (result, memo')) : result ≠ .ok () := by
  induction path, name using visitServices.induct walker generalizing memo result memo' with
  | case1 path name ih =>
  have forgotten : (memo.services.lookup name).isSome = false :=
    Bool.eq_false_iff.mpr fun known => notGrounded (kept.2.grounded known)
  rw [visitServices] at ran
  simp only [run_run_bind, run_knownServices, forgotten, Bool.false_eq_true, ↓reduceIte] at ran
  split at ran
  · simp only [run_run_throw] at ran
    obtain ⟨rfl, rfl⟩ := ran
    exact nofun
  · next realm found =>
    split at ran
    · simp only [run_run_throw] at ran
      obtain ⟨rfl, rfl⟩ := ran
      exact nofun
    · split at ran
      · simp only [run_run_throw] at ran
        obtain ⟨rfl, rfl⟩ := ran
        exact nofun
      · next notOnPath =>
        simp only [run_run_bind] at ran
        obtain ⟨parent, member, parentNot⟩ := RealmGraph.exists_parent_not_grounded found notGrounded
        rcases loopRan : (forIn (RealmGraph.parentNames realm) PUnit.unit fun parent _ => do
            walker.visitServices (name :: path) parent
            pure (ForInStep.yield PUnit.unit)).run.run memo with ⟨loopResult, afterLoop⟩
        have loopFails := forIn_run_ne_ok
          (fun state => ServicesSound walker.graph state ∧ ServicesSettled walker.graph state)
          (fun parent _ _ _ _ keptHere parentRan =>
            visitServices_keeps_settled (name :: path) parent keptHere parentRan)
          member (fun _ _ _ keptHere parentRan =>
            ih realm found notOnPath parent parentNot keptHere parentRan)
          kept loopRan
        rw [loopRan] at ran
        cases loopResult with
        | error e =>
            obtain ⟨rfl, rfl⟩ := ran
            exact nofun
        | ok done => exact absurd rfl loopFails

/-- A failed search names a realm it reaches that is missing, or one on a cycle: every realm on
its path reaches the realm being visited, so a realm met again on the path closes a cycle. -/
theorem visitServices_explained (path : List String) (name : String)
    (below : ∀ p ∈ path, Relation.TransGen walker.graph.NameStep p name)
    {memo memo' : WalkMemo} {e : ExpandError}
    (ran : (walker.visitServices path name).run.run memo = (.error e, memo')) :
    walker.graph.Explains name e := by
  induction path, name using visitServices.induct walker generalizing memo e memo' with
  | case1 path name ih =>
  rw [visitServices] at ran
  simp only [run_run_bind, run_knownServices] at ran
  by_cases known : (memo.services.lookup name).isSome
  · simp only [known, if_true, run_run_pure] at ran
    cases ran
  simp only [known, Bool.false_eq_true, ↓reduceIte] at ran
  split at ran
  · have unknown : walker.graph.realm? name = none := by assumption
    simp only [run_run_throw] at ran
    cases ran
    exact ⟨.refl, unknown⟩
  · next realm found =>
    have step : ∀ parent ∈ RealmGraph.parentNames realm, walker.graph.NameStep name parent :=
      fun parent member => ⟨realm, found, member⟩
    split at ran
    · next missing finding =>
      simp only [run_run_throw] at ran
      cases ran
      have selected := List.find?_some finding
      exact ⟨.single (step missing (List.mem_of_find?_eq_some finding)),
        Option.isNone_iff_eq_none.mp selected⟩
    · split at ran
      · next onPath =>
        simp only [run_run_throw] at ran
        cases ran
        exact ⟨.refl, below name onPath⟩
      · next notOnPath =>
        simp only [run_run_bind] at ran
        rcases loopRan : (forIn (RealmGraph.parentNames realm) PUnit.unit fun parent _ => do
            walker.visitServices (name :: path) parent
            pure (ForInStep.yield PUnit.unit)).run.run memo with ⟨loopResult, afterLoop⟩
        rw [loopRan] at ran
        cases loopResult with
        | error e' =>
            cases ran
            refine forIn_run_error (fun parent listed _ _ _ parentRan => ?_) loopRan
            refine RealmGraph.Explains.of_step (step parent listed)
              (ih realm found notOnPath parent (fun p member => ?_) parentRan)
            rcases List.mem_cons.mp member with rfl | earlier
            · exact .single (step parent listed)
            · exact (below p earlier).tail (step parent listed)
        | ok done =>
            simp only [run_run_get, run_run_modify] at ran
            cases ran

/-- Two sound, settled memos lead a search for services to the same result. Through a grounded
realm it succeeds from both; through any other realm neither memo remembers it, so both runs take
the same steps up to the loop over its parents, whose searches agree in turn. -/
theorem visitServices_agrees (path : List String) (name : String)
    (below : ∀ p ∈ path, Relation.TransGen walker.graph.NameStep p name)
    {memo memo' after after' : WalkMemo} {result result' : Except ExpandError Unit}
    (kept : ServicesSound walker.graph memo ∧ ServicesSettled walker.graph memo)
    (kept' : ServicesSound walker.graph memo' ∧ ServicesSettled walker.graph memo')
    (ran : (walker.visitServices path name).run.run memo = (result, after))
    (ran' : (walker.visitServices path name).run.run memo' = (result', after')) :
    result = result' := by
  induction path, name using visitServices.induct walker
    generalizing memo memo' after after' result result' with
  | case1 path name ih =>
  by_cases grounded : walker.graph.Grounded name
  · rw [visitServices_ok_of_grounded path name grounded below ran,
      visitServices_ok_of_grounded path name grounded below ran']
  have forgotten : ∀ state : WalkMemo, ServicesSettled walker.graph state →
      (state.services.lookup name).isSome = false := fun state settled =>
    Bool.eq_false_iff.mpr fun known => grounded (settled.grounded known)
  rw [visitServices] at ran ran'
  simp only [run_run_bind, run_knownServices, forgotten memo kept.2, forgotten memo' kept'.2,
    Bool.false_eq_true, ↓reduceIte] at ran ran'
  split at ran
  · next unknown =>
    split at ran'
    · simp only [run_run_throw] at ran ran'
      obtain ⟨rfl, -⟩ := ran
      obtain ⟨rfl, -⟩ := ran'
      rfl
    · next realm found =>
      rw [unknown] at found
      cases found
  · next realm found =>
    split at ran'
    · next unknown =>
      rw [unknown] at found
      cases found
    · next realm' found' =>
      rw [found] at found'
      cases found'
      split at ran
      · next missing finding =>
        rw [finding] at ran'
        simp only [run_run_throw] at ran ran'
        obtain ⟨rfl, -⟩ := ran
        obtain ⟨rfl, -⟩ := ran'
        rfl
      · next noneMissing =>
        rw [noneMissing] at ran'
        split at ran
        · next onPath =>
          rw [dif_pos onPath] at ran'
          simp only [run_run_throw] at ran ran'
          obtain ⟨rfl, -⟩ := ran
          obtain ⟨rfl, -⟩ := ran'
          rfl
        · next notOnPath =>
          rw [dif_neg notOnPath] at ran'
          simp only [run_run_bind] at ran ran'
          -- every realm on the path below a parent reaches the parent
          have belowParent : ∀ parent ∈ RealmGraph.parentNames realm, ∀ p ∈ name :: path,
              Relation.TransGen walker.graph.NameStep p parent := by
            intro parent listed p member
            have step : walker.graph.NameStep name parent := ⟨realm, found, listed⟩
            rcases List.mem_cons.mp member with rfl | earlier
            · exact .single step
            · exact (below p earlier).tail step
          rcases loopRan : (forIn (RealmGraph.parentNames realm) PUnit.unit fun parent _ => do
              walker.visitServices (name :: path) parent
              pure (ForInStep.yield PUnit.unit)).run.run memo with ⟨loopResult, afterLoop⟩
          rcases loopRan' : (forIn (RealmGraph.parentNames realm) PUnit.unit fun parent _ => do
              walker.visitServices (name :: path) parent
              pure (ForInStep.yield PUnit.unit)).run.run memo' with ⟨loopResult', afterLoop'⟩
          have sameLoop : loopResult = loopResult' :=
            forIn_agrees
              (fun state => ServicesSound walker.graph state ∧ ServicesSettled walker.graph state)
              (fun parent listed _ _ _ _ _ _ keptHere keptHere' parentRan parentRan' =>
                ⟨ih realm found notOnPath parent (belowParent parent listed) keptHere keptHere'
                  parentRan parentRan',
                  visitServices_keeps_settled (name :: path) parent keptHere parentRan,
                  visitServices_keeps_settled (name :: path) parent keptHere' parentRan'⟩)
              kept kept' loopRan loopRan'
          rw [loopRan] at ran
          rw [loopRan', ← sameLoop] at ran'
          cases loopResult with
          | error e =>
              cases ran
              cases ran'
              rfl
          | ok done =>
              -- the loop meets a parent that is not grounded, so it cannot succeed
              obtain ⟨parent, listed, parentNot⟩ :=
                RealmGraph.exists_parent_not_grounded found grounded
              exact absurd rfl (forIn_run_ne_ok
                (fun state => ServicesSound walker.graph state ∧ ServicesSettled walker.graph state)
                (fun parent _ _ _ _ keptHere parentRan =>
                  visitServices_keeps_settled (name :: path) parent keptHere parentRan)
                listed (fun _ _ _ keptHere parentRan =>
                  visitServices_fails (name :: path) parent parentNot keptHere parentRan)
                kept loopRan)

/-! ### What the services of a realm are -/

theorem run_services_of_missing {name : String} (missing : walker.graph.realm? name = none)
    (memo : WalkMemo) :
    (walker.services name).run.run memo = (.error (.unknownRealm name), memo) := by
  unfold services
  simp only [missing, Option.isNone_none, ↓reduceIte, run_run_bind, run_run_throw]

/-- The services of a realm of the graph fail as its search fails. -/
theorem run_services_of_error {name : String} (present : (walker.graph.realm? name).isSome)
    {memo after : WalkMemo} {e : ExpandError}
    (visitRan : (walker.visitServices [] name).run.run memo = (.error e, after)) :
    (walker.services name).run.run memo = (.error e, after) := by
  unfold services
  simp only [Option.isNone_iff_eq_none, Option.ne_none_iff_isSome.mpr present, ↓reduceIte,
    run_run_bind, visitRan]

/-- After a successful search, the services of a realm are what the memo remembers for it. -/
theorem run_services_of_ok {name : String} (present : (walker.graph.realm? name).isSome)
    {memo after : WalkMemo} (visitRan : (walker.visitServices [] name).run.run memo = (.ok (), after)) :
    (walker.services name).run.run memo = (.ok ((after.services.lookup name).getD none), after) := by
  unfold services
  simp only [Option.isNone_iff_eq_none, Option.ne_none_iff_isSome.mpr present, ↓reduceIte,
    run_run_bind, visitRan, run_knownServices, run_run_pure]

/-- The services of a realm from a sound, settled memo: those that enforce it when it is grounded,
else a failure naming a missing realm or a cycle it reaches. -/
theorem services_settled (name : String) {memo memo' : WalkMemo}
    {result : Except ExpandError (Option (List String))}
    (kept : ServicesSound walker.graph memo ∧ ServicesSettled walker.graph memo)
    (ran : (walker.services name).run.run memo = (result, memo')) :
    (walker.graph.Grounded name →
        ∃ answer, result = .ok answer ∧ walker.graph.ServicesOf name answer) ∧
      (¬ walker.graph.Grounded name → ∃ e, result = .error e ∧ walker.graph.Explains name e) := by
  have answered := (services_spec walker name kept.1 ran).2.2
  refine ⟨fun grounded => ?_, fun notGrounded => ?_⟩
  · rcases visitRan : (walker.visitServices [] name).run.run memo with ⟨visited, afterVisit⟩
    rw [visitServices_ok_of_grounded [] name grounded (fun _ member => nomatch member) visitRan]
      at visitRan
    rw [run_services_of_ok (grounded.present name .refl) visitRan] at ran
    cases ran
    exact ⟨_, rfl, answered _ rfl⟩
  · cases located : walker.graph.realm? name with
    | none =>
        rw [run_services_of_missing located] at ran
        cases ran
        exact ⟨_, rfl, .refl, located⟩
    | some realm =>
        have present : (walker.graph.realm? name).isSome := by rw [located]; rfl
        rcases visitRan : (walker.visitServices [] name).run.run memo with ⟨visited, afterVisit⟩
        cases visited with
        | error e =>
            rw [run_services_of_error present visitRan] at ran
            cases ran
            exact ⟨e, rfl, visitServices_explained [] name (fun _ member => nomatch member) visitRan⟩
        | ok done => exact absurd rfl (visitServices_fails [] name notGrounded kept visitRan)

/-- Finding the services of a realm keeps the services memo sound and settled. -/
theorem services_keeps_settled (name : String) {memo memo' : WalkMemo}
    {result : Except ExpandError (Option (List String))}
    (kept : ServicesSound walker.graph memo ∧ ServicesSettled walker.graph memo)
    (ran : (walker.services name).run.run memo = (result, memo')) :
    ServicesSound walker.graph memo' ∧ ServicesSettled walker.graph memo' := by
  refine ⟨(services_spec walker name kept.1 ran).2.1, ?_⟩
  cases located : walker.graph.realm? name with
  | none =>
      rw [run_services_of_missing located] at ran
      cases ran
      exact kept.2
  | some realm =>
      have present : (walker.graph.realm? name).isSome := by rw [located]; rfl
      rcases visitRan : (walker.visitServices [] name).run.run memo with ⟨visited, afterVisit⟩
      have visitSettled := visitServices_settled [] name kept visitRan
      cases visited with
      | error e =>
          rw [run_services_of_error present visitRan] at ran
          cases ran
          exact visitSettled
      | ok done =>
          rw [run_services_of_ok present visitRan] at ran
          cases ran
          exact visitSettled

/-- Two sound, settled memos give a realm the same services, or the same error. -/
theorem services_agrees (name : String) {memo memo' after after' : WalkMemo}
    {result result' : Except ExpandError (Option (List String))}
    (kept : ServicesSound walker.graph memo ∧ ServicesSettled walker.graph memo)
    (kept' : ServicesSound walker.graph memo' ∧ ServicesSettled walker.graph memo')
    (ran : (walker.services name).run.run memo = (result, after))
    (ran' : (walker.services name).run.run memo' = (result', after')) : result = result' := by
  have answered := (services_spec walker name kept.1 ran).2.2
  have answered' := (services_spec walker name kept'.1 ran').2.2
  cases located : walker.graph.realm? name with
  | none =>
      rw [run_services_of_missing located] at ran ran'
      cases ran
      cases ran'
      rfl
  | some realm =>
      have present : (walker.graph.realm? name).isSome := by rw [located]; rfl
      rcases visitRan : (walker.visitServices [] name).run.run memo with ⟨visited, afterVisit⟩
      rcases visitRan' : (walker.visitServices [] name).run.run memo' with ⟨visited', afterVisit'⟩
      have same : visited = visited' :=
        visitServices_agrees [] name (fun _ member => nomatch member) kept kept' visitRan visitRan'
      rw [← same] at visitRan'
      cases visited with
      | error e =>
          rw [run_services_of_error present visitRan] at ran
          rw [run_services_of_error present visitRan'] at ran'
          cases ran
          cases ran'
          rfl
      | ok done =>
          -- both answers are the services that enforce the realm, and there is one such answer
          rw [run_services_of_ok present visitRan] at ran
          rw [run_services_of_ok present visitRan'] at ran'
          cases ran
          cases ran'
          rw [RealmGraph.servicesOf_unique (answered _ rfl) (answered' _ rfl)]

/-- Finding the services of realms one after another keeps the services memo sound and settled. -/
theorem answerAll_services_settled :
    ∀ (names : List String) {memo : WalkMemo},
      ServicesSound walker.graph memo ∧ ServicesSettled walker.graph memo →
      ServicesSound walker.graph (walker.answerAll memo (names.map .services)).2 ∧
        ServicesSettled walker.graph (walker.answerAll memo (names.map .services)).2
  | [], _, kept => kept
  | name :: more, memo, kept => by
      rcases ran : (walker.services name).run.run memo with ⟨answer, middle⟩
      simp only [List.map_cons, answerAll, ran]
      exact answerAll_services_settled more (services_keeps_settled name kept ran)

end Walker

/-- Every record of an expansion carries the services that enforce its realm. -/
theorem Config.expansion_services {config : Config} {registry : Registry} {project : String}
    {out : Expansion} (expanded : config.expandUnchecked registry project = .ok out) :
    List.Forall₂ (fun name record => record.name = project ++ ":" ++ name ∧
        (config.workingGraph registry project).ServicesOf name record.services)
      (config.workingGraph registry project).names out.realms := by
  obtain ⟨table, entries, memo, outcome, rfl⟩ := Config.expandUnchecked_outcome expanded
  show List.Forall₂ _ ((config.workingGraph registry project).realms.map (·.name)) _
  rw [List.forall₂_map_left_iff, List.forall₂_map_right_iff]
  refine List.Forall₂.imp (fun realm entry expands => ⟨?_, expands.services⟩) outcome.expands
  show project ++ ":" ++ entry.1 = _
  rw [expands.name]

/-- The services of a realm, found on the memo that any earlier searches left, failed ones
included: the services that enforce the realm when it is grounded; otherwise a failure naming a
missing realm it reaches or a realm it reaches on a cycle; always what a fresh memo gives. Every
record of an expansion carries the services that enforce its realm. -/
theorem realm_services_ignore_history (walker : Walker) (history : List String) (name : String) :
    let after := (walker.services name).run.run (walker.answerAll {} (history.map .services)).2
    let fresh := (walker.services name).run.run {}
    (walker.graph.Grounded name →
        ∃ answer, after.1 = .ok answer ∧ walker.graph.ServicesOf name answer) ∧
      (¬ walker.graph.Grounded name → ∃ e, after.1 = .error e ∧ walker.graph.Explains name e) ∧
      after.1 = fresh.1 ∧
      ∀ (config : Config) (registry : Registry) (project : String) (out : Expansion),
        config.expandUnchecked registry project = .ok out →
        List.Forall₂ (fun realm record => record.name = project ++ ":" ++ realm ∧
            (config.workingGraph registry project).ServicesOf realm record.services)
          (config.workingGraph registry project).names out.realms := by
  intro after fresh
  have start : Walker.ServicesSound walker.graph {} ∧ Walker.ServicesSettled walker.graph {} :=
    ⟨fun _ member => (nomatch member), Walker.servicesSettled_empty walker.graph⟩
  have kept := Walker.answerAll_services_settled history start
  obtain ⟨found, failed⟩ := Walker.services_settled name kept rfl
  exact ⟨found, failed, Walker.services_agrees name kept start rfl rfl,
    fun _ _ _ _ expanded => Config.expansion_services expanded⟩

end RealmAccess
