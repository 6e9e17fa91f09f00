import RealmAccess.Proofs.CycleReports
import RealmAccess.Proofs.Tables
/-!
# Every cycle in reach stops expansion

A cycle that expansion can reach never lets it succeed. A walk is cut once its path is as long
as there are realms, so a walk that runs to its end meets no realm that inherits from itself:
such a realm would have led it deeper. Resolution remembers a role only after every parent of
it, so a remembered role is founded: no chain of custom-role parents from it goes on forever,
and none reaches a cycle.

The role memo is changed only by resolution. So an invariant of the role memo that every
resolution keeps carries over every step of a walker (`Walker.Leads`), and the founded roles
are one such invariant.
-/

namespace RealmAccess

namespace RoleSource

variable {source : RoleSource}

/-- A role from which no chain of custom-role parents goes on forever. -/
def Founded (source : RoleSource) (name : String) : Prop :=
  Acc (fun parent child => source.Extends child parent) name

theorem Founded.of_reach {name reached : String} (founded : source.Founded name)
    (chain : Relation.ReflTransGen source.Extends name reached) : source.Founded reached := by
  induction chain with
  | refl => exact founded
  | tail _ step reachedFounded => exact reachedFounded.inv step

/-- A founded role does not extend itself. -/
theorem Founded.not_cycle {name : String} (founded : source.Founded name) :
    ¬ Relation.TransGen source.Extends name name := by
  have chains : Acc (Relation.TransGen fun parent child => source.Extends child parent) name :=
    acc_transGen_iff.mpr founded
  clear founded
  induction chains with
  | intro child _ ih =>
      intro cycle
      exact ih child (Relation.transGen_swap.mpr cycle) cycle

/-- A role that is not custom has no parents to follow. -/
theorem founded_of_not_custom {name : String}
    (notCustom : name.startsWith customRolePrefix = false) : source.Founded name :=
  Acc.intro name fun _ step => (Bool.false_ne_true (notCustom.symm.trans step.1)).elim

/-- A custom role is founded once all its parents are. -/
theorem founded_of_parents {name : String} {role : CustomRole}
    (found : source.customRole? name = some role)
    (parents : ∀ parent ∈ role.parents, source.Founded parent) : source.Founded name :=
  Acc.intro name fun parent ⟨_, role', found', member⟩ => by
    rw [found] at found'
    cases found'
    exact parents parent member

end RoleSource

namespace RoleMemo

variable {source : RoleSource}

/-- Every remembered role is founded. -/
def Founded (source : RoleSource) (memo : RoleMemo) : Prop :=
  ∀ entry ∈ memo.resolved, source.Founded entry.1

theorem founded_empty (source : RoleSource) : ({} : RoleMemo).Founded source :=
  fun _ member => nomatch member

theorem Founded.of_remembers {memo : RoleMemo} (founded : memo.Founded source) {name : String}
    (remembered : memo.Remembers name) : source.Founded name := by
  unfold Remembers at remembered
  rw [List.lookup_isSome_iff] at remembered
  obtain ⟨entry, member, same⟩ := remembered
  rw [beq_iff_eq.mp same]
  exact founded entry member

theorem founded_remember {memo : RoleMemo} (founded : memo.Founded source) {name : String}
    (nameFounded : source.Founded name) (permissions : List Nat) :
    RoleMemo.Founded source { memo with resolved := (name, permissions) :: memo.resolved } := by
  intro entry member
  rcases List.mem_cons.mp member with rfl | earlier
  · exact nameFounded
  · exact founded entry earlier

end RoleMemo

section Loops

variable {ε σ γ : Type}

/-- A loop keeps what each of its steps keeps. -/
theorem forIn_keeps {step : γ → ExceptT ε (StateM σ) PUnit} (holds : σ → Prop) {items : List γ}
    (each : ∀ item ∈ items, ∀ state result state', holds state →
      (step item).run.run state = (result, state') → holds state')
    {state state' : σ} {result : Except ε PUnit} (start : holds state)
    (ran : (forIn items PUnit.unit fun item _ => do
        step item
        pure (ForInStep.yield PUnit.unit)).run.run state = (result, state')) :
    holds state' := by
  induction items generalizing state with
  | nil =>
      simp only [List.forIn_nil, run_run_pure, Prod.mk.injEq] at ran
      rw [← ran.2]
      exact start
  | cons item more ih =>
      simp only [List.forIn_cons, run_run_bind] at ran
      rcases stepRan : (step item).run.run state with ⟨first, middle⟩
      have middleHolds := each item List.mem_cons_self state first middle start stepRan
      rw [stepRan] at ran
      cases first with
      | error e =>
          cases ran
          exact middleHolds
      | ok done =>
          simp only [run_run_pure] at ran
          exact ih (fun other member => each other (List.mem_cons_of_mem item member))
            middleHolds ran

end Loops

namespace RoleSource

variable {source : RoleSource}

/-- Resolution remembers a role only when it is founded: a built-in role has no parents to
follow, and a custom role is remembered after all its parents are. -/
theorem visit_founded (path : List String) (name : String) {memo memo' : RoleMemo}
    {result : Except ExpandError Unit} (sound : memo.Sound source) (founded : memo.Founded source)
    (ran : (source.visit path name).run.run memo = (result, memo')) : memo'.Founded source := by
  induction path, name using visit.induct source generalizing memo memo' result with
  | case1 path name ih =>
  rw [visit] at ran
  simp only [run_run_bind, run_memoized] at ran
  by_cases remembered : (memo.resolved.lookup name).isSome
  · simp only [remembered, if_true, run_run_pure] at ran
    cases ran
    exact founded
  simp only [remembered, Bool.false_eq_true, ↓reduceIte] at ran
  split at ran
  · next builtin =>
    split at ran
    · simp only [run_run_throw] at ran
      cases ran
      exact founded
    · simp only [run_run_bind, run_number, run_remember] at ran
      cases ran
      exact RoleMemo.founded_remember founded (founded_of_not_custom (not_custom_of_builtin builtin)) _
  · split at ran
    · split at ran
      · simp only [run_run_throw] at ran
        cases ran
        exact founded
      · next notOnPath =>
        split at ran
        · simp only [run_run_throw] at ran
          cases ran
          exact founded
        · next role found =>
          split at ran
          · simp only [run_run_throw] at ran
            cases ran
            exact founded
          · simp only [run_run_bind] at ran
            rcases loopRan : (forIn role.parents PUnit.unit fun parent _ => do
                source.visit (name :: path) parent
                pure (ForInStep.yield PUnit.unit)).run.run memo with ⟨loopResult, afterLoop⟩
            -- each parent's resolution keeps the memo sound and its roles founded
            have loopKept : afterLoop.Sound source ∧ afterLoop.Founded source := by
              refine forIn_keeps (fun state => state.Sound source ∧ state.Founded source)
                (fun parent _ state result state' kept parentRan => ?_) ⟨sound, founded⟩ loopRan
              exact ⟨(visit_resolves source (name :: path) parent state result state' kept.1
                parentRan).1, ih notOnPath role found parent kept.1 kept.2 parentRan⟩
            rw [loopRan] at ran
            cases loopResult with
            | error e =>
                cases ran
                exact loopKept.2
            | ok done =>
                obtain ⟨-, -, loopDone⟩ :=
                  forIn_resolves (fun parent _ => visit_resolves source (name :: path) parent)
                    sound loopRan
                have remembered : ∀ parent ∈ role.parents, RoleMemo.Remembers
                    { afterLoop with table := (afterLoop.table.internAll role.permissions).2 } parent :=
                  (loopDone rfl).1
                simp only [run_number, run_mapM_inherited remembered, run_remember] at ran
                cases ran
                refine RoleMemo.founded_remember loopKept.2 (founded_of_parents found
                  fun parent member => loopKept.2.of_remembers (remembered parent member)) _
    · simp only [run_run_throw] at ran
      cases ran
      exact founded

theorem resolve_founded (name : String) {memo memo' : RoleMemo}
    {result : Except ExpandError (List Nat)} (sound : memo.Sound source)
    (founded : memo.Founded source) (ran : (source.resolve name).run.run memo = (result, memo')) :
    memo'.Founded source := by
  unfold resolve at ran
  rw [run_run_bind] at ran
  rcases visitRan : (source.visit [] name).run.run memo with ⟨visited, afterVisit⟩
  have visitFounded := visit_founded [] name sound founded visitRan
  rw [visitRan] at ran
  cases visited with
  | error e =>
      cases ran
      exact visitFounded
  | ok done =>
      simp only [run_run_bind, run_memoized] at ran
      cases found : afterVisit.resolved.lookup name with
      | none =>
          rw [found] at ran
          cases ran
          exact visitFounded
      | some permissions =>
          rw [found] at ran
          cases ran
          exact visitFounded

/-- A property of role memos that every resolution keeps. -/
def ResolutionKeeps (source : RoleSource) (holds : RoleMemo → Prop) : Prop :=
  ∀ name memo result memo', holds memo →
    (source.resolve name).run.run memo = (result, memo') → holds memo'

theorem resolutionKeeps_sound : source.ResolutionKeeps (·.Sound source) :=
  fun name _ _ _ sound ran => (resolve_spec source name sound ran).1

theorem resolutionKeeps_remembers (role : String) :
    source.ResolutionKeeps fun memo => memo.Sound source ∧ memo.Remembers role :=
  fun name _ _ _ kept ran =>
    have resolved := resolve_spec source name kept.1 ran
    ⟨resolved.1, resolved.2.1.remembers kept.2⟩

theorem resolutionKeeps_founded :
    source.ResolutionKeeps fun memo => memo.Sound source ∧ memo.Founded source :=
  fun name _ _ _ kept ran =>
    ⟨(resolve_spec source name kept.1 ran).1, resolve_founded name kept.1 kept.2 ran⟩

end RoleSource

namespace Walker

variable {walker : Walker}

/-- Every property that resolution keeps carries over from the role memo of `memo` to that of
`memo'`: between them the walker changed its role memo only by resolving roles. -/
def Leads (walker : Walker) (memo memo' : WalkMemo) : Prop :=
  ∀ holds, walker.source.ResolutionKeeps holds → holds memo.roles → holds memo'.roles

theorem Leads.refl (memo : WalkMemo) : walker.Leads memo memo :=
  fun _ _ start => start

theorem Leads.trans {memo middle memo' : WalkMemo} (first : walker.Leads memo middle)
    (second : walker.Leads middle memo') : walker.Leads memo memo' :=
  fun holds kept start => second holds kept (first holds kept start)

theorem grant_leads {r b : Nat} {binding : Binding} {memo memo' : WalkMemo}
    {result : Except ExpandError (List Nat × List Nat)}
    (ran : (walker.grant r b binding).run.run memo = (result, memo')) : walker.Leads memo memo' := by
  unfold grant at ran
  rw [run_run_bind, run_resolving] at ran
  rcases resolveRan : (walker.source.resolve binding.role).run.run memo.roles with
    ⟨resolved, roles⟩
  have resolving : walker.Leads memo { memo with roles := roles } :=
    fun holds kept start => kept binding.role memo.roles resolved roles start resolveRan
  rw [resolveRan] at ran
  cases resolved with
  | error e =>
      cases ran
      exact resolving
  | ok permissions =>
      simp only [run_run_bind, run_liftExcept] at ran
      cases looked : walker.conditions.indexes
          ((List.range binding.conditions.length).map (Slot.ofIndices r b)) with
      | error e =>
          simp only [looked] at ran
          cases ran
          exact resolving
      | ok conditions =>
          simp only [looked, run_run_pure] at ran
          cases ran
          exact resolving

theorem bindingGrants_leads (r : Nat) :
    ∀ (items : List (Binding × Nat)) {memo memo' : WalkMemo} {trace : Trace},
      (walker.bindingGrants r none items).run memo = (trace, memo') → walker.Leads memo memo'
  | [], memo, memo', trace, ran => by
      cases ran
      exact .refl memo
  | (binding, b) :: more, memo, memo', trace, ran => by
      rw [run_bindingGrants_cons] at ran
      rcases grantRan : (walker.grant r b binding).run.run memo with ⟨result, afterGrant⟩
      have granted := grant_leads grantRan
      rw [grantRan] at ran
      cases result with
      | error e =>
          cases ran
          exact granted
      | ok pair =>
          obtain ⟨permissions, conditions⟩ := pair
          dsimp only at ran
          rcases restRan : (walker.bindingGrants r none more).run afterGrant with ⟨rest, afterRest⟩
          rw [restRan] at ran
          cases ran
          exact granted.trans (bindingGrants_leads r more restRan)

theorem foldParents_leads (depth : Nat) :
    ∀ {parents : List Nat}, (∀ p ∈ parents, ∀ memo trace memo',
      (walker.walkFrom p (depth + 1) none).run memo = (trace, memo') → walker.Leads memo memo') →
    ∀ {start trace : Trace} {memo memo' : WalkMemo},
      (parents.foldlM (walker.parentStep depth) start).run memo = (trace, memo') →
        walker.Leads memo memo'
  | [], _, start, trace, memo, memo', ran => by
      cases ran
      exact .refl memo
  | p :: more, walks, start, trace, memo, memo', ran => by
      rw [List.foldlM_cons] at ran
      rcases stepRan : (walker.parentStep depth start p).run memo with ⟨middle, afterStep⟩
      rw [run_bind_of_run_eq stepRan] at ran
      have rest := foldParents_leads depth
        (fun p' member => walks p' (List.mem_cons_of_mem p member)) ran
      rw [parentStep] at stepRan
      split at stepRan
      · cases stepRan
        exact rest
      · rcases walkRan : (walker.walkFrom p (depth + 1) none).run memo with ⟨next, afterWalk⟩
        rw [run_bind_of_run_eq walkRan] at stepRan
        cases stepRan
        exact (walks p List.mem_cons_self memo next _ walkRan).trans rest

theorem walkFrom_leads (r depth : Nat) :
    ∀ memo trace memo', (walker.walkFrom r depth none).run memo = (trace, memo') →
      walker.Leads memo memo' := by
  induction r, depth using walkFrom_induction walker with
  | deep r depth deep =>
      intro memo trace memo' ran
      rw [walkFrom_deep rfl deep] at ran
      cases ran
      exact .refl memo
  | missing r depth notDeep missing =>
      intro memo trace memo' ran
      rw [walkFrom_missing rfl notDeep missing] at ran
      cases ran
      exact .refl memo
  | found r depth realm notDeep found ih =>
      intro memo trace memo' ran
      rw [walkFrom_none_found notDeep found] at ran
      rcases ownRan : (walker.bindingGrants r none realm.bindings.zipIdx).run memo with
        ⟨own, afterOwn⟩
      have ownLeads := bindingGrants_leads r _ ownRan
      rw [run_bind_of_run_eq ownRan] at ran
      split at ran
      · cases ran
        exact ownLeads
      · split at ran
        · cases ran
          exact ownLeads
        · exact ownLeads.trans
            (foldParents_leads depth (fun p _ => ih p) ran)

/-- When the walks from the parents of a realm end with no error, so did the trace they started
from, and so did the walk from each parent. -/
theorem foldParents_finished (depth : Nat) :
    ∀ {parents : List Nat} {start trace : Trace} {memo memo' : WalkMemo},
      (parents.foldlM (walker.parentStep depth) start).run memo = (trace, memo') →
      trace.stop = none →
      start.stop = none ∧ ∀ p ∈ parents, ∃ before next after,
        (walker.walkFrom p (depth + 1) none).run before = (next, after) ∧ next.stop = none
  | [], start, trace, memo, memo', ran, finished => by
      cases ran
      exact ⟨finished, fun _ member => nomatch member⟩
  | p :: more, start, trace, memo, memo', ran, finished => by
      rw [List.foldlM_cons] at ran
      rcases stepRan : (walker.parentStep depth start p).run memo with ⟨middle, afterStep⟩
      rw [run_bind_of_run_eq stepRan] at ran
      obtain ⟨middleRunning, later⟩ := foldParents_finished depth ran finished
      rw [parentStep] at stepRan
      split at stepRan
      · next stopped =>
          cases stepRan
          rw [middleRunning] at stopped
          cases stopped
      · next running =>
          rcases walkRan : (walker.walkFrom p (depth + 1) none).run memo with ⟨next, afterWalk⟩
          rw [run_bind_of_run_eq walkRan] at stepRan
          cases stepRan
          have startRunning : start.stop = none := Option.not_isSome_iff_eq_none.mp running
          rw [Trace.andThen_of_stop_none next startRunning] at middleRunning
          refine ⟨startRunning, fun p' member => ?_⟩
          rcases List.mem_cons.mp member with rfl | other
          · exact ⟨memo, next, _, walkRan, middleRunning⟩
          · exact later p' other

/-- A walk that runs to its end meets no realm that inherits from itself. A realm on a cycle
within reach would lead the walk ever deeper, and the walk is cut at a depth of as many steps as
there are realms. -/
theorem walkFrom_acyclic (distinct : walker.graph.names.Nodup) (r depth : Nat) :
    ∀ memo trace memo', (walker.walkFrom r depth none).run memo = (trace, memo') →
      trace.stop = none → ∀ name, walker.graph.position name = .ok r →
        ∀ reached, Relation.ReflTransGen walker.graph.NameStep name reached →
          ¬ Relation.TransGen walker.graph.NameStep reached reached := by
  induction r, depth using walkFrom_induction walker with
  | deep r depth deep =>
      intro memo trace memo' ran finished
      rw [walkFrom_deep rfl deep] at ran
      cases ran
      cases finished
  | missing r depth notDeep missing =>
      intro _ _ _ _ _ name positioned
      have named := (RealmGraph.position_eq_ok_iff distinct).mp positioned
      rw [RealmGraph.getElem?_names, missing] at named
      cases named
  | found r depth realm notDeep found ih =>
      intro memo trace memo' ran finished name positioned reached chain cycle
      rw [walkFrom_none_found notDeep found] at ran
      rcases ownRan : (walker.bindingGrants r none realm.bindings.zipIdx).run memo with
        ⟨own, afterOwn⟩
      rw [run_bind_of_run_eq ownRan] at ran
      have named := (RealmGraph.position_eq_ok_iff distinct).mp positioned
      rw [RealmGraph.getElem?_names, found, Option.map_some, Option.some.injEq] at named
      have located : walker.graph.realm? name = some realm :=
        (RealmGraph.realm?_eq_some_iff distinct).mpr ⟨List.mem_of_getElem? found, named⟩
      -- the first step from the realm leads to a parent, from which the cycle is in reach
      have first : ∃ parent, walker.graph.NameStep name parent ∧
          Relation.ReflTransGen walker.graph.NameStep parent reached := by
        rcases Relation.ReflTransGen.cases_head chain with same | ⟨parent, step, rest⟩
        · rw [← same] at cycle
          obtain ⟨parent, step, rest⟩ := Relation.TransGen.head'_iff.mp cycle
          exact ⟨parent, step, same ▸ rest⟩
        · exact ⟨parent, step, rest⟩
      obtain ⟨parent, ⟨realm', located', listed⟩, rest⟩ := first
      rw [located] at located'
      cases located'
      split at ran
      · next stopped =>
          cases ran
          rw [finished] at stopped
          cases stopped
      · next running =>
          have ownRunning : own.stop = none := Option.not_isSome_iff_eq_none.mp running
          split at ran
          · cases ran
            rw [Trace.andThen_of_stop_none _ ownRunning] at finished
            cases finished
          · next parents positions =>
              obtain ⟨-, walked⟩ := foldParents_finished depth ran finished
              obtain ⟨p, pMember, parentPositioned⟩ :=
                exists_of_forall₂_left (forall₂_of_mapM_eq_ok positions) listed
              obtain ⟨before, next, after, walkRan, walkFinished⟩ := walked p pMember
              exact ih p before next after walkRan walkFinished parent
                parentPositioned reached rest cycle

theorem walk_leads {name : String} {memo memo' : WalkMemo} {trace : Trace}
    (ran : (walker.walk name none).run memo = (trace, memo')) : walker.Leads memo memo' := by
  cases positioned : walker.graph.position name with
  | error e =>
      rw [walk_of_unknown positioned] at ran
      cases ran
      exact .refl memo
  | ok r =>
      rw [walk_of_position positioned] at ran
      exact walkFrom_leads r 0 memo trace memo' ran

/-- The search for services leaves the role memo alone. -/
theorem visitServices_leads (path : List String) (name : String) {memo memo' : WalkMemo}
    {result : Except ExpandError Unit}
    (ran : (walker.visitServices path name).run.run memo = (result, memo')) :
    walker.Leads memo memo' := by
  induction path, name using visitServices.induct walker generalizing memo memo' result with
  | case1 path name ih =>
  rw [visitServices] at ran
  simp only [run_run_bind, run_knownServices] at ran
  by_cases remembered : (memo.services.lookup name).isSome
  · simp only [remembered, if_true, run_run_pure] at ran
    cases ran
    exact .refl memo
  simp only [remembered, Bool.false_eq_true, ↓reduceIte] at ran
  split at ran
  · simp only [run_run_throw] at ran
    cases ran
    exact .refl memo
  · next realm found =>
    split at ran
    · simp only [run_run_throw] at ran
      cases ran
      exact .refl memo
    · split at ran
      · simp only [run_run_throw] at ran
        cases ran
        exact .refl memo
      · next notOnPath =>
        simp only [run_run_bind] at ran
        rcases loopRan : (forIn (RealmGraph.parentNames realm) PUnit.unit fun parent _ => do
            walker.visitServices (name :: path) parent
            pure (ForInStep.yield PUnit.unit)).run.run memo with ⟨loopResult, afterLoop⟩
        have loopLeads : walker.Leads memo afterLoop :=
          forIn_keeps (walker.Leads memo) (fun parent _ _ _ _ led parentRan =>
            led.trans (ih realm found notOnPath parent parentRan)) (.refl memo) loopRan
        rw [loopRan] at ran
        cases loopResult with
        | error e =>
            cases ran
            exact loopLeads
        | ok done =>
            simp only [run_run_get, run_run_modify] at ran
            cases ran
            exact fun holds kept start => loopLeads holds kept start

theorem services_leads {name : String} {memo memo' : WalkMemo}
    {result : Except ExpandError (Option (List String))}
    (ran : (walker.services name).run.run memo = (result, memo')) : walker.Leads memo memo' := by
  unfold services at ran
  split at ran
  · simp only [run_run_bind, run_run_throw] at ran
    cases ran
    exact .refl memo
  · simp only [run_run_bind] at ran
    rcases visitRan : (walker.visitServices [] name).run.run memo with ⟨visited, afterVisit⟩
    have visitLeads := visitServices_leads [] name visitRan
    rw [visitRan] at ran
    cases visited with
    | error e =>
        cases ran
        exact visitLeads
    | ok done =>
        simp only [run_knownServices] at ran
        cases ran
        exact visitLeads

theorem expandRealms_leads :
    ∀ (realms : List Realm) {memo memo' : WalkMemo}
      {result : Except ExpandError (List (String × List BindingRecord × Option (List String)))},
      (walker.expandRealms realms).run.run memo = (result, memo') → walker.Leads memo memo'
  | [], memo, memo', result, ran => by
      simp only [expandRealms, run_run_pure] at ran
      cases ran
      exact .refl memo
  | realm :: more, memo, memo', result, ran => by
      rw [expandRealms] at ran
      simp only [run_run_bind] at ran
      rcases walkRan : (walker.walk realm.name none).run memo with ⟨trace, afterWalk⟩
      have walkLeads := walk_leads walkRan
      rw [run_run_liftM_of_run walkRan] at ran
      simp only [run_run_liftM_except] at ran
      cases compacted : trace.compact with
      | error e =>
          rw [compacted] at ran
          cases ran
          exact walkLeads
      | ok bindings =>
          rw [compacted] at ran
          simp only at ran
          rcases servicesRan : (walker.services realm.name).run.run afterWalk with
            ⟨answer, afterServices⟩
          have servicesLead := services_leads servicesRan
          rw [servicesRan] at ran
          cases answer with
          | error e =>
              cases ran
              exact walkLeads.trans servicesLead
          | ok services =>
              simp only at ran
              rcases restRan : (walker.expandRealms more).run.run afterServices with
                ⟨restResult, afterRest⟩
              have restLeads := expandRealms_leads more restRan
              rw [restRan] at ran
              cases restResult with
              | error e =>
                  cases ran
                  exact walkLeads.trans (servicesLead.trans restLeads)
              | ok rest =>
                  simp only [run_run_pure] at ran
                  cases ran
                  exact walkLeads.trans (servicesLead.trans restLeads)

/-- A successful expansion walked every realm to its end, from a memo that the start leads to,
into one that leads to the end. -/
theorem expandRealms_walked :
    ∀ (realms : List Realm) {memo memo' : WalkMemo}
      {entries : List (String × List BindingRecord × Option (List String))},
      (walker.expandRealms realms).run.run memo = (.ok entries, memo') →
      ∀ realm ∈ realms, ∃ before trace after, walker.Leads memo before ∧
        (walker.walk realm.name none).run before = (trace, after) ∧ trace.stop = none ∧
        walker.Leads after memo'
  | [], memo, memo', entries, ran => fun _ member => nomatch member
  | realm :: more, memo, memo', entries, ran => by
      rw [expandRealms] at ran
      simp only [run_run_bind] at ran
      rcases walkRan : (walker.walk realm.name none).run memo with ⟨trace, afterWalk⟩
      have walkLeads := walk_leads walkRan
      rw [run_run_liftM_of_run walkRan] at ran
      simp only [run_run_liftM_except] at ran
      cases compacted : trace.compact with
      | error e =>
          rw [compacted] at ran
          cases ran
      | ok bindings =>
          obtain ⟨running, -⟩ := Trace.compact_eq_ok compacted
          rw [compacted] at ran
          simp only at ran
          rcases servicesRan : (walker.services realm.name).run.run afterWalk with
            ⟨answer, afterServices⟩
          have servicesLead := services_leads servicesRan
          rw [servicesRan] at ran
          cases answer with
          | error e => cases ran
          | ok services =>
              simp only at ran
              rcases restRan : (walker.expandRealms more).run.run afterServices with
                ⟨restResult, afterRest⟩
              rw [restRan] at ran
              cases restResult with
              | error e => cases ran
              | ok rest =>
                  simp only [run_run_pure] at ran
                  obtain ⟨-, rfl⟩ := ran
                  have restLeads := expandRealms_leads more restRan
                  intro walked member
                  rcases List.mem_cons.mp member with rfl | later
                  · exact ⟨memo, trace, afterWalk, .refl memo, walkRan, running,
                      servicesLead.trans restLeads⟩
                  · obtain ⟨before, trace', after, led, walked', finished, leads⟩ :=
                      expandRealms_walked more restRan walked later
                    exact ⟨before, trace', after, walkLeads.trans (servicesLead.trans led),
                      walked', finished, leads⟩

end Walker

namespace Config

variable {config : Config} {registry : Registry} {project : String}

/-- A successful expansion met no cycle: no working realm inherits from itself, and no role that
a working binding names reaches a custom role that extends itself. -/
theorem expandUnchecked_acyclic {out : Expansion}
    (expanded : config.expandUnchecked registry project = .ok out) :
    (∀ realm, ¬ Relation.TransGen (config.workingGraph registry project).NameStep realm realm) ∧
      ∀ realm ∈ (config.workingGraph registry project).realms, ∀ binding ∈ realm.bindings,
        ∀ role, Relation.ReflTransGen (RoleSource.mk registry config.customRoles).Extends
          binding.role role →
        ¬ Relation.TransGen (RoleSource.mk registry config.customRoles).Extends role role := by
  obtain ⟨table, entries, memo, -, walked, -⟩ := expandUnchecked_inv expanded
  have everyWalk := Walker.expandRealms_walked _ walked
  constructor
  · intro name cycle
    obtain ⟨parent, ⟨realm, located, -⟩, -⟩ := Relation.TransGen.head'_iff.mp cycle
    obtain ⟨member, named⟩ := (RealmGraph.realm?_eq_some_iff workingGraph_names_nodup).mp located
    obtain ⟨r, positioned, -⟩ := workingGraph_realm_at member
    obtain ⟨before, trace, after, -, walkRan, finished, -⟩ := everyWalk realm member
    rw [Walker.walk_of_position positioned] at walkRan
    rw [named] at positioned
    exact Walker.walkFrom_acyclic workingGraph_names_nodup r 0 before trace after walkRan finished
      name positioned name .refl cycle
  · intro realm member binding listed role chain cycle
    obtain ⟨r, positioned, found⟩ := workingGraph_realm_at member
    obtain ⟨before, trace, after, led, walkRan, finished, leads⟩ := everyWalk realm member
    rw [Walker.walk_of_position positioned] at walkRan
    -- the walk resolved the binding's role, and the memo stays founded to the end
    have sound : before.roles.Sound ⟨registry, config.customRoles⟩ :=
      led _ RoleSource.resolutionKeeps_sound (RoleMemo.sound_empty _)
    obtain ⟨kept, -, covers⟩ := Walker.walksFrom _ r 0 before trace after sound walkRan
    have remembered : memo.roles.Remembers binding.role :=
      (leads _ (RoleSource.resolutionKeeps_remembers binding.role)
        ⟨kept.sound, (covers finished).2.1 realm found binding listed⟩).2
    have founded : memo.roles.Founded ⟨registry, config.customRoles⟩ :=
      (Walker.expandRealms_leads _ walked _ RoleSource.resolutionKeeps_founded
        ⟨RoleMemo.sound_empty _, RoleMemo.founded_empty _⟩).2
    exact ((founded.of_remembers remembered).of_reach chain).not_cycle cycle

end Config

/-- Cycles and expansion. Expansion without checks names a role cycle only at a custom role that
extends itself through custom roles, and a realm cycle only when some working realm inherits
from itself. Conversely, when a working realm inherits from itself, or a binding of a working
realm names a role from which custom roles lead to one that extends itself, expansion fails.
Expansion always ends: each of its recursions is well founded. -/
theorem expansion_cycle_reports_sound_and_complete (config : Config) (registry : Registry)
    (project : String) :
    (∀ name, config.expandUnchecked registry project = .error (.cycle .role name) →
      Relation.TransGen (RoleSource.mk registry config.customRoles).Extends name name) ∧
    (∀ name, config.expandUnchecked registry project = .error (.cycle .realm name) →
      ∃ realm, Relation.TransGen (config.workingGraph registry project).NameStep realm realm) ∧
    ((∃ realm, Relation.TransGen (config.workingGraph registry project).NameStep realm realm) ∨
        (∃ realm ∈ (config.workingGraph registry project).realms, ∃ binding ∈ realm.bindings,
          ∃ role, Relation.ReflTransGen (RoleSource.mk registry config.customRoles).Extends
              binding.role role ∧
            Relation.TransGen (RoleSource.mk registry config.customRoles).Extends role role) →
      ∀ out, config.expandUnchecked registry project ≠ .ok out) := by
  refine ⟨fun _ failed => Config.expandUnchecked_justified failed,
    fun _ failed => Config.expandUnchecked_justified failed, ?_⟩
  rintro (⟨realm, cycle⟩ | ⟨realm, member, binding, listed, role, chain, cycle⟩) out expanded
  · exact (Config.expandUnchecked_acyclic expanded).1 realm cycle
  · exact (Config.expandUnchecked_acyclic expanded).2 realm member binding listed role chain cycle

/-! ### A loop through a custom role with a built-in name

Resolution looks a name up among the custom roles only when it has the custom prefix. A custom
role declared under a built-in name is never read, so a loop through it stops nothing. -/

/-- A registry that defines the built-in role `role/x`. -/
def builtinNamedLoopRegistry : Registry :=
  { roles := [{ name := "role/x", permissions := ["p.x"] }] }

/-- A root that binds `role/x`, and a custom role of the same name that lists itself as its
parent. -/
def builtinNamedLoopConfig : Config :=
  { realms := [{ name := "@root", bindings := [{ role := "role/x", principals := ["user:x"] }] }]
    customRoles := [{ name := "role/x", parents := ["role/x"] }] }

theorem builtinNamedLoop_workingGraph :
    builtinNamedLoopConfig.workingGraph builtinNamedLoopRegistry "proj" =
      ⟨[{ name := "@root", bindings := [{ role := "role/x", principals := ["user:x"] }] }]⟩ := by
  simp +decide [Config.workingGraph, RealmGraph.build, builtinNamedLoopConfig, lastOfEachName,
    Registry.implicitFor, Registry.implicitBindings, builtinNamedLoopRegistry, rootRealm]

theorem builtinNamedLoop_customRole :
    (RoleSource.mk builtinNamedLoopRegistry builtinNamedLoopConfig.customRoles).customRole?
      "role/x" = some { name := "role/x", parents := ["role/x"] } := by
  decide +kernel

/-- The walker of the configuration runs to its end: the custom role's parent is not custom, so
it closes no cycle of custom roles, and the root has no parents. -/
theorem builtinNamedLoop_runnable (index : ConditionIndex) :
    (builtinNamedLoopConfig.walkerOf builtinNamedLoopRegistry "proj" index).Runnable := by
  have graph := builtinNamedLoop_workingGraph
  have noParents : ∀ realm ∈
      (builtinNamedLoopConfig.workingGraph builtinNamedLoopRegistry "proj").realms,
      RealmGraph.parentNames realm = [] := by
    rw [graph]
    intro realm member
    rw [List.mem_singleton.mp member]
    decide +kernel
  -- `role/x`, the one role the configuration names, is known as the registry's
  have known : RoleKnown builtinNamedLoopRegistry
      (builtinNamedLoopConfig.customRoles.map (·.name)) "role/x" :=
    .inr (by decide +kernel)
  refine ⟨⟨fun name cycle => ?_, fun role member parent listed => ?_⟩,
    fun realm member binding listed => ?_, fun item member => ?_,
    fun realm member name listed => ?_, Config.workingGraph_names_nodup, fun r cycle => ?_,
    fun name cycle => ?_⟩
  · -- resolvable: the only parent of a custom role is `role/x`, which is not custom
    obtain ⟨parent, ⟨custom, role, found, listed⟩, -⟩ := Relation.TransGen.head'_iff.mp cycle
    have member : role ∈ builtinNamedLoopConfig.customRoles := RoleSource.mem_of_customRole? found
    simp only [builtinNamedLoopConfig, List.mem_singleton] at member
    subst member
    simp only [List.mem_singleton] at listed
    subst listed
    exact absurd custom (by decide +kernel)
  · change role ∈ builtinNamedLoopConfig.customRoles at member
    simp only [builtinNamedLoopConfig, List.mem_singleton] at member
    subst member
    simp only [List.mem_singleton] at listed
    subst listed
    exact known
  · change realm ∈ (builtinNamedLoopConfig.workingGraph builtinNamedLoopRegistry "proj").realms
      at member
    rw [graph, List.mem_singleton] at member
    subst member
    rw [List.mem_singleton] at listed
    subst listed
    exact known
  · change item ∈ (builtinNamedLoopConfig.workingGraph builtinNamedLoopRegistry "proj").slots
      at member
    rw [graph] at member
    simp [RealmGraph.slots] at member
  · rw [noParents realm member] at listed
    cases listed
  · obtain ⟨c, ⟨realm, parents, found, positions, listed⟩, -⟩ :=
      Relation.TransGen.head'_iff.mp cycle
    rw [RealmGraph.parentPositions, noParents realm (List.mem_of_getElem? found)] at positions
    cases positions
    cases listed
  · obtain ⟨c, ⟨realm, located, listed⟩, -⟩ := Relation.TransGen.head'_iff.mp cycle
    rw [noParents realm (RealmGraph.mem_realms_of_realm? located)] at listed
    cases listed

theorem builtinNamedLoop_expands :
    ∃ out, builtinNamedLoopConfig.expandUnchecked builtinNamedLoopRegistry "proj" = .ok out := by
  have restricted : ∀ realm ∈
      (builtinNamedLoopConfig.workingGraph builtinNamedLoopRegistry "proj").realms,
      ∀ binding ∈ realm.bindings, ∀ condition ∈ binding.conditions,
        condition.restrict.isSome := by
    rw [builtinNamedLoop_workingGraph]
    simp
  obtain ⟨table, added⟩ := ConditionTable.addAll_ok {} (RealmGraph.slots_restricted restricted)
  rcases walked : ((builtinNamedLoopConfig.walkerOf builtinNamedLoopRegistry "proj"
      table.finalize.1).expandRealms
      (builtinNamedLoopConfig.workingGraph builtinNamedLoopRegistry "proj").realms).run.run {} with
    ⟨result, memo⟩
  obtain ⟨entries, rfl⟩ := Walker.expandRealms_runs (builtinNamedLoop_runnable _) _
    (fun _ member => member) (RoleMemo.sound_empty _) (fun _ member => by cases member) walked
  exact Config.expandUnchecked_ok added walked

/-- A binding whose role is a custom role that lists itself as its parent, and still expansion
succeeds: the role has a built-in name, so the registry's role of that name is used and the
custom role is never read. -/
theorem builtin_named_custom_role_loop_expands :
    (∃ role, (RoleSource.mk builtinNamedLoopRegistry builtinNamedLoopConfig.customRoles).customRole?
        "role/x" = some role ∧ "role/x" ∈ role.parents) ∧
      (∃ realm ∈ (builtinNamedLoopConfig.workingGraph builtinNamedLoopRegistry "proj").realms,
        ∃ binding ∈ realm.bindings, binding.role = "role/x") ∧
      ∃ out, builtinNamedLoopConfig.expandUnchecked builtinNamedLoopRegistry "proj" = .ok out := by
  refine ⟨⟨_, builtinNamedLoop_customRole, List.mem_singleton_self _⟩, ?_, builtinNamedLoop_expands⟩
  rw [builtinNamedLoop_workingGraph]
  exact ⟨_, List.mem_singleton_self _, _, List.mem_singleton_self _, rfl⟩

end RealmAccess
