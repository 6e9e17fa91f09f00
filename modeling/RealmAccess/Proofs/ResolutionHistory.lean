import RealmAccess.Proofs.CycleDetection
/-!
# Resolution after any history

One memo serves every resolution of an expansion, and a resolution that fails keeps what it
resolved before failing. Still, what a resolution answers depends on the role asked for only
(`resolution_ignores_history`). It succeeds exactly when the role is resolvable
(`RoleSource.ResolvableFrom`: every role it reaches is known and none of them extends itself),
with strictly increasing numbers of exactly the permissions the role grants; and its answer,
read as names, is the answer of a fresh memo, errors included.

The memo stays settled (`RoleMemo.Settled`): a role is remembered only once it is resolvable,
and with sorted numbers. So a remembered role is never one whose resolution must fail, and a
search through a resolvable role meets no error whatever the memo holds: two settled memos lead
a search to the same result.
-/

namespace RealmAccess

namespace RoleSource

variable {source : RoleSource}

/-! ### Resolvable roles -/

/-- A role whose resolution can only succeed: every role it reaches through the parents of custom
roles is known, and none of them extends itself. -/
structure ResolvableFrom (source : RoleSource) (name : String) : Prop where
  known : ∀ reached, Relation.ReflTransGen source.Extends name reached →
    RoleKnown source.registry source.customNames reached
  acyclic : ∀ reached, Relation.ReflTransGen source.Extends name reached →
    ¬ Relation.TransGen source.Extends reached reached

theorem ResolvableFrom.of_reach {name reached : String} (resolvable : source.ResolvableFrom name)
    (chain : Relation.ReflTransGen source.Extends name reached) : source.ResolvableFrom reached :=
  ⟨fun other more => resolvable.known other (chain.trans more),
    fun other more => resolvable.acyclic other (chain.trans more)⟩

theorem Extends.mem_parents {child parent : String} {role : CustomRole}
    (step : source.Extends child parent) (found : source.customRole? child = some role) :
    parent ∈ role.parents := by
  obtain ⟨-, role', found', member⟩ := step
  rw [found] at found'
  cases found'
  exact member

/-- A role that is not custom reaches only itself. -/
theorem eq_of_reach_not_custom {name reached : String}
    (notCustom : name.startsWith customRolePrefix = false)
    (chain : Relation.ReflTransGen source.Extends name reached) : reached = name := by
  rcases Relation.ReflTransGen.cases_head chain with same | ⟨_, step, _⟩
  · exact same.symm
  · exact absurd (notCustom.symm.trans step.1) Bool.false_ne_true

/-- A built-in role the registry defines is resolvable: it extends nothing. -/
theorem resolvableFrom_builtin {name : String} (builtin : name.startsWith builtinRolePrefix = true)
    (defined : (source.registry.role? name).isSome) : source.ResolvableFrom name := by
  have notCustom := not_custom_of_builtin builtin
  refine ⟨fun reached chain => ?_, fun reached chain cycle => ?_⟩
  · rw [eq_of_reach_not_custom notCustom chain]
    exact Or.inr ⟨builtin, defined⟩
  · rw [eq_of_reach_not_custom notCustom chain] at cycle
    obtain ⟨_, step, _⟩ := Relation.TransGen.head'_iff.mp cycle
    exact absurd (notCustom.symm.trans step.1) Bool.false_ne_true

/-- A declared custom role is resolvable once all its parents are: whatever it reaches besides
itself it reaches through a parent, and a cycle through it runs through a parent that reaches
it. -/
theorem resolvableFrom_custom {name : String} {role : CustomRole}
    (custom : name.startsWith customRolePrefix = true) (found : source.customRole? name = some role)
    (parents : ∀ parent ∈ role.parents, source.ResolvableFrom parent) :
    source.ResolvableFrom name := by
  refine ⟨fun reached chain => ?_, fun reached chain cycle => ?_⟩
  · rcases Relation.ReflTransGen.cases_head chain with rfl | ⟨parent, step, rest⟩
    · exact Or.inl ⟨custom, mem_customNames_of_customRole? found⟩
    · exact (parents parent (step.mem_parents found)).known reached rest
  · rcases Relation.ReflTransGen.cases_head chain with rfl | ⟨parent, step, rest⟩
    · obtain ⟨parent, step, back⟩ := Relation.TransGen.head'_iff.mp cycle
      exact (parents parent (step.mem_parents found)).acyclic _ back cycle
    · exact (parents parent (step.mem_parents found)).acyclic reached rest cycle

/-- A declared custom role that is not resolvable has a parent that is not. -/
theorem exists_parent_not_resolvableFrom {name : String} {role : CustomRole}
    (custom : name.startsWith customRolePrefix = true) (found : source.customRole? name = some role)
    (notResolvable : ¬ source.ResolvableFrom name) :
    ∃ parent ∈ role.parents, ¬ source.ResolvableFrom parent := by
  by_contra allResolvable
  refine notResolvable (resolvableFrom_custom custom found fun parent member => ?_)
  by_contra parentNot
  exact allResolvable ⟨parent, member, parentNot⟩

end RoleSource

/-! ### The settled memo -/

namespace RoleMemo

variable {source : RoleSource}

/-- Every remembered role is resolvable and remembered with strictly increasing numbers. -/
def Settled (source : RoleSource) (memo : RoleMemo) : Prop :=
  ∀ entry ∈ memo.resolved, source.ResolvableFrom entry.1 ∧ entry.2.SortedLT

theorem settled_empty (source : RoleSource) : ({} : RoleMemo).Settled source :=
  fun _ member => nomatch member

theorem Settled.resolvable {memo : RoleMemo} (settled : memo.Settled source) {name : String}
    (remembered : memo.Remembers name) : source.ResolvableFrom name := by
  unfold Remembers at remembered
  rw [List.lookup_isSome_iff] at remembered
  obtain ⟨entry, member, same⟩ := remembered
  rw [beq_iff_eq.mp same]
  exact (settled entry member).1

theorem Settled.sortedLT {memo : RoleMemo} (settled : memo.Settled source) {name : String}
    {permissions : List Nat} (found : memo.resolved.lookup name = some permissions) :
    permissions.SortedLT :=
  (settled (name, permissions) (mem_of_lookup_eq_some found)).2

end RoleMemo

namespace NameTable

/-- The names that some numbers of a table stand for. -/
def namesOf (table : NameTable) (indexes : List Nat) : Set String :=
  { x | ∃ i ∈ indexes, table.names[i]? = some x }

theorem Lists.namesOf_eq {table : NameTable} {indexes : List Nat} {holds : String → Prop}
    (listed : table.Lists indexes holds) : table.namesOf indexes = { x | holds x } :=
  Set.ext listed.exact

end NameTable

section Loops

variable {ε σ γ : Type}

/-- A loop fails when one of its items fails from every state the loop can reach, the states
reached being those that `keeps` holds of. -/
theorem forIn_run_ne_ok {step : γ → ExceptT ε (StateM σ) PUnit} (keeps : σ → Prop)
    {items : List γ}
    (each : ∀ item ∈ items, ∀ state result state', keeps state →
      (step item).run.run state = (result, state') → keeps state')
    {failing : γ} (listed : failing ∈ items)
    (fails : ∀ state result state', keeps state →
      (step failing).run.run state = (result, state') → result ≠ .ok ())
    {state state' : σ} {result : Except ε PUnit} (start : keeps state)
    (ran : (forIn items PUnit.unit fun item _ => do
        step item
        pure (ForInStep.yield PUnit.unit)).run.run state = (result, state')) :
    result ≠ .ok () := by
  induction items generalizing state with
  | nil => cases listed
  | cons item more ih =>
      simp only [List.forIn_cons, run_run_bind] at ran
      rcases stepRan : (step item).run.run state with ⟨first, middle⟩
      rw [stepRan] at ran
      cases first with
      | error e =>
          cases ran
          exact nofun
      | ok done =>
          simp only [run_run_pure] at ran
          rcases List.mem_cons.mp listed with rfl | later
          · exact absurd rfl (fails state _ middle start stepRan)
          · exact ih (fun other member => each other (List.mem_cons_of_mem item member)) later
              (each item List.mem_cons_self state _ middle start stepRan) ran

/-- Two runs of a loop, from states that `keeps` holds of, end alike when each step run from two
such states ends alike and keeps them. -/
theorem forIn_agrees {step : γ → ExceptT ε (StateM σ) PUnit} (keeps : σ → Prop) {items : List γ}
    (each : ∀ item ∈ items, ∀ state state' result result' after after', keeps state → keeps state' →
      (step item).run.run state = (result, after) → (step item).run.run state' = (result', after') →
      result = result' ∧ keeps after ∧ keeps after')
    {state state' after after' : σ} {result result' : Except ε PUnit} (start : keeps state)
    (start' : keeps state')
    (ran : (forIn items PUnit.unit fun item _ => do
        step item
        pure (ForInStep.yield PUnit.unit)).run.run state = (result, after))
    (ran' : (forIn items PUnit.unit fun item _ => do
        step item
        pure (ForInStep.yield PUnit.unit)).run.run state' = (result', after')) :
    result = result' := by
  induction items generalizing state state' with
  | nil =>
      simp only [List.forIn_nil, run_run_pure, Prod.mk.injEq] at ran ran'
      rw [← ran.1, ← ran'.1]
  | cons item more ih =>
      simp only [List.forIn_cons, run_run_bind] at ran ran'
      rcases stepRan : (step item).run.run state with ⟨first, middle⟩
      rcases stepRan' : (step item).run.run state' with ⟨first', middle'⟩
      obtain ⟨same, kept, kept'⟩ :=
        each item List.mem_cons_self state state' first first' middle middle' start start' stepRan
          stepRan'
      rw [stepRan] at ran
      rw [stepRan', ← same] at ran'
      cases first with
      | error e =>
          cases ran
          cases ran'
          rfl
      | ok done =>
          simp only [run_run_pure] at ran ran'
          exact ih (fun other member => each other (List.mem_cons_of_mem item member)) kept kept'
            ran ran'

end Loops

namespace RoleSource

variable {source : RoleSource}

/-- A property of remembered entries that resolution gives every entry it makes: the entry of a
built-in role, and the entry of a custom role made once its parents are remembered in a memo whose
entries all have the property. -/
structure EntryRule (source : RoleSource) (holds : String → List Nat → Prop) : Prop where
  builtin : ∀ {name : String} {role : RoleDef} (numbers : List Nat),
    name.startsWith builtinRolePrefix = true → source.registry.role? name = some role →
    holds name (Order.sortNats numbers)
  custom : ∀ {name : String} {role : CustomRole} (numbers : List Nat) (memo : RoleMemo),
    name.startsWith customRolePrefix = true → source.customRole? name = some role →
    (∀ entry ∈ memo.resolved, holds entry.1 entry.2) →
    (∀ parent ∈ role.parents, memo.Remembers parent) → holds name (Order.sortNats numbers)

/-- Resolution keeps every property of entries that it gives each entry it makes. -/
theorem visit_keeps {holds : String → List Nat → Prop} (rule : source.EntryRule holds)
    (path : List String) (name : String) {memo memo' : RoleMemo} {result : Except ExpandError Unit}
    (sound : memo.Sound source) (kept : ∀ entry ∈ memo.resolved, holds entry.1 entry.2)
    (ran : (source.visit path name).run.run memo = (result, memo')) :
    ∀ entry ∈ memo'.resolved, holds entry.1 entry.2 := by
  induction path, name using visit.induct source generalizing memo memo' result with
  | case1 path name ih =>
  rw [visit] at ran
  simp only [run_run_bind, run_memoized] at ran
  by_cases remembered : (memo.resolved.lookup name).isSome
  · simp only [remembered, if_true, run_run_pure] at ran
    cases ran
    exact kept
  simp only [remembered, Bool.false_eq_true, ↓reduceIte] at ran
  split at ran
  · next builtin =>
    split at ran
    · simp only [run_run_throw] at ran
      cases ran
      exact kept
    · next role found =>
      simp only [run_run_bind, run_number, run_remember] at ran
      cases ran
      intro entry member
      rcases List.mem_cons.mp member with rfl | earlier
      · exact rule.builtin _ builtin found
      · exact kept entry earlier
  · split at ran
    · next custom =>
      split at ran
      · simp only [run_run_throw] at ran
        cases ran
        exact kept
      · next notOnPath =>
        split at ran
        · simp only [run_run_throw] at ran
          cases ran
          exact kept
        · next role found =>
          split at ran
          · simp only [run_run_throw] at ran
            cases ran
            exact kept
          · simp only [run_run_bind] at ran
            rcases loopRan : (forIn role.parents PUnit.unit fun parent _ => do
                source.visit (name :: path) parent
                pure (ForInStep.yield PUnit.unit)).run.run memo with ⟨loopResult, afterLoop⟩
            -- each parent's resolution keeps the memo sound and the property of its entries
            have loopKept :
                afterLoop.Sound source ∧ ∀ entry ∈ afterLoop.resolved, holds entry.1 entry.2 := by
              refine forIn_keeps
                (fun state => state.Sound source ∧ ∀ entry ∈ state.resolved, holds entry.1 entry.2)
                (fun parent _ state result state' keptHere parentRan => ?_) ⟨sound, kept⟩ loopRan
              exact ⟨(visit_resolves source (name :: path) parent state result state' keptHere.1
                parentRan).1, ih notOnPath role found parent keptHere.1 keptHere.2 parentRan⟩
            rw [loopRan] at ran
            cases loopResult with
            | error e =>
                cases ran
                exact loopKept.2
            | ok done =>
                obtain ⟨-, -, loopDone⟩ :=
                  forIn_resolves (fun parent _ => visit_resolves source (name :: path) parent)
                    sound loopRan
                have remembered : ∀ parent ∈ role.parents, RoleMemo.Remembers
                    { afterLoop with table := (afterLoop.table.internAll role.permissions).2 } parent :=
                  (loopDone rfl).1
                simp only [run_number, run_mapM_inherited remembered, run_remember] at ran
                cases ran
                intro entry member
                rcases List.mem_cons.mp member with rfl | earlier
                · exact rule.custom _ _ custom found loopKept.2 remembered
                · exact loopKept.2 entry earlier
    · simp only [run_run_throw] at ran
      cases ran
      exact kept

theorem resolve_keeps {holds : String → List Nat → Prop} (rule : source.EntryRule holds)
    (name : String) {memo memo' : RoleMemo} {result : Except ExpandError (List Nat)}
    (sound : memo.Sound source) (kept : ∀ entry ∈ memo.resolved, holds entry.1 entry.2)
    (ran : (source.resolve name).run.run memo = (result, memo')) :
    ∀ entry ∈ memo'.resolved, holds entry.1 entry.2 := by
  unfold resolve at ran
  rw [run_run_bind] at ran
  rcases visitRan : (source.visit [] name).run.run memo with ⟨visited, afterVisit⟩
  have visitKept := visit_keeps rule [] name sound kept visitRan
  rw [visitRan] at ran
  cases visited with
  | error e =>
      cases ran
      exact visitKept
  | ok done =>
      simp only [run_run_bind, run_memoized] at ran
      cases found : afterVisit.resolved.lookup name with
      | none =>
          rw [found] at ran
          cases ran
          exact visitKept
      | some permissions =>
          rw [found] at ran
          cases ran
          exact visitKept

theorem EntryRule.resolutionKeeps {holds : String → List Nat → Prop} (rule : source.EntryRule holds) :
    source.ResolutionKeeps fun memo =>
      memo.Sound source ∧ ∀ entry ∈ memo.resolved, holds entry.1 entry.2 :=
  fun name _ _ _ kept ran =>
    ⟨(resolve_spec source name kept.1 ran).1, resolve_keeps rule name kept.1 kept.2 ran⟩

/-- Resolution remembers a role only once it is resolvable, and with sorted numbers. -/
theorem settledRule : source.EntryRule fun name numbers =>
    source.ResolvableFrom name ∧ numbers.SortedLT where
  builtin numbers builtin found :=
    ⟨resolvableFrom_builtin builtin (by rw [found]; rfl), Order.sortNats_sortedLT numbers⟩
  custom numbers memo custom found kept remembered :=
    ⟨resolvableFrom_custom custom found fun parent member =>
      (show memo.Settled source from kept).resolvable (remembered parent member),
      Order.sortNats_sortedLT numbers⟩

/-- Every search keeps the memo sound and settled. -/
theorem visit_keeps_settled (path : List String) (name : String) {memo memo' : RoleMemo}
    {result : Except ExpandError Unit} (kept : memo.Sound source ∧ memo.Settled source)
    (ran : (source.visit path name).run.run memo = (result, memo')) :
    memo'.Sound source ∧ memo'.Settled source :=
  ⟨(visit_resolves source path name memo result memo' kept.1 ran).1,
    visit_keeps settledRule path name kept.1 kept.2 ran⟩

/-- Every resolution keeps the memo sound and settled. -/
theorem resolutionKeeps_settled :
    source.ResolutionKeeps fun memo => memo.Sound source ∧ memo.Settled source :=
  settledRule.resolutionKeeps

/-- Resolving roles one after another keeps what every resolution keeps. -/
theorem resolveAll_keeps {holds : RoleMemo → Prop} (kept : source.ResolutionKeeps holds) :
    ∀ (names : List String) {memo : RoleMemo}, holds memo → holds (source.resolveAll memo names).2
  | [], _, start => start
  | name :: more, memo, start => by
      rcases ran : (source.resolve name).run.run memo with ⟨answer, middle⟩
      simp only [resolveAll, ran]
      exact resolveAll_keeps kept more (kept name memo answer middle start ran)

/-! ### What a search through a role ends with -/

/-- A search through a resolvable role succeeds from any sound memo when the role is reached from
every role on the path: meeting one of them again would close a cycle it reaches. -/
theorem visit_ok_of_resolvableFrom (path : List String) (name : String)
    (resolvable : source.ResolvableFrom name)
    (below : ∀ p ∈ path, Relation.TransGen source.Extends p name) {memo memo' : RoleMemo}
    {result : Except ExpandError Unit} (sound : memo.Sound source)
    (ran : (source.visit path name).run.run memo = (result, memo')) : result = .ok () := by
  induction path, name using visit.induct source generalizing memo result memo' with
  | case1 path name ih =>
  have known := resolvable.known name .refl
  rw [visit] at ran
  simp only [run_run_bind, run_memoized] at ran
  by_cases remembered : (memo.resolved.lookup name).isSome
  · simp only [remembered, if_true, run_run_pure] at ran
    obtain ⟨rfl, rfl⟩ := ran
    rfl
  simp only [remembered, Bool.false_eq_true, ↓reduceIte] at ran
  split at ran
  · next builtin =>
    split at ran
    · next unknown =>
      exfalso
      rcases known with ⟨custom, -⟩ | ⟨-, registered⟩
      · rw [not_builtin_of_custom custom] at builtin
        cases builtin
      · rw [unknown] at registered
        cases registered
    · simp only [run_run_bind, run_number, run_remember] at ran
      obtain ⟨rfl, rfl⟩ := ran
      rfl
  · next notBuiltin =>
    split at ran
    · next custom =>
      split at ran
      · next onPath => exact absurd (below name onPath) (resolvable.acyclic name .refl)
      · next notOnPath =>
        split at ran
        · exfalso
          rcases known with ⟨-, declared⟩ | ⟨builtin, -⟩
          · have undeclared : source.customRole? name = none := by assumption
            have present := customRole?_isSome declared
            rw [undeclared] at present
            cases present
          · exact notBuiltin builtin
        · next role found =>
          have step : ∀ parent ∈ role.parents, source.Extends name parent :=
            fun parent member => ⟨custom, role, found, member⟩
          -- every role on the path below a parent reaches the parent
          have belowParent : ∀ parent ∈ role.parents, ∀ p ∈ name :: path,
              Relation.TransGen source.Extends p parent := by
            intro parent member p onPath
            rcases List.mem_cons.mp onPath with rfl | later
            · exact .single (step parent member)
            · exact (below p later).tail (step parent member)
          split at ran
          · next parent closing =>
            exfalso
            have selected := List.find?_some closing
            have onPath : parent ∈ name :: path := of_decide_eq_true selected
            have member : parent ∈ role.parents :=
              List.mem_reverse.mp (List.mem_of_find?_eq_some closing)
            exact resolvable.acyclic parent (.single (step parent member))
              (belowParent parent member parent onPath)
          · simp only [run_run_bind] at ran
            rcases loopRan : (forIn role.parents PUnit.unit fun parent _ => do
                source.visit (name :: path) parent
                pure (ForInStep.yield PUnit.unit)).run.run memo with ⟨loopResult, afterLoop⟩
            have loopOk := forIn_run_ok (·.Sound source)
              (fun parent member memo result memo' sound ran =>
                ⟨ih notOnPath role found parent (resolvable.of_reach (.single (step parent member)))
                  (belowParent parent member) sound ran,
                  (visit_resolves source (name :: path) parent memo result memo' sound ran).1⟩)
              sound loopRan
            obtain ⟨-, -, loopDone⟩ :=
              forIn_resolves (fun parent _ => visit_resolves source (name :: path) parent) sound loopRan
            rw [loopRan, loopOk] at ran
            have remembered : ∀ parent ∈ role.parents,
                RoleMemo.Remembers { afterLoop with
                  table := (afterLoop.table.internAll role.permissions).2 } parent :=
              (loopDone loopOk).1
            simp only [run_number, run_mapM_inherited remembered, run_remember] at ran
            obtain ⟨rfl, rfl⟩ := ran
            rfl
    · next notCustom =>
      exfalso
      rcases known with ⟨custom, -⟩ | ⟨builtin, -⟩
      · exact notCustom custom
      · exact notBuiltin builtin

/-- A search through a role that is not resolvable fails from any sound, settled memo: the memo
does not remember the role, and the search meets the role or a parent that is not resolvable. -/
theorem visit_fails (path : List String) (name : String)
    (notResolvable : ¬ source.ResolvableFrom name) {memo memo' : RoleMemo}
    {result : Except ExpandError Unit} (sound : memo.Sound source) (settled : memo.Settled source)
    (ran : (source.visit path name).run.run memo = (result, memo')) : result ≠ .ok () := by
  induction path, name using visit.induct source generalizing memo result memo' with
  | case1 path name ih =>
  have forgotten : (memo.resolved.lookup name).isSome = false :=
    Bool.eq_false_iff.mpr fun remembered => notResolvable (settled.resolvable remembered)
  rw [visit] at ran
  simp only [run_run_bind, run_memoized, forgotten, Bool.false_eq_true, ↓reduceIte] at ran
  split at ran
  · next builtin =>
    split at ran
    · simp only [run_run_throw] at ran
      obtain ⟨rfl, rfl⟩ := ran
      exact nofun
    · next role found =>
      exact absurd (resolvableFrom_builtin builtin (by rw [found]; rfl)) notResolvable
  · split at ran
    · next custom =>
      split at ran
      · simp only [run_run_throw] at ran
        obtain ⟨rfl, rfl⟩ := ran
        exact nofun
      · next notOnPath =>
        split at ran
        · simp only [run_run_throw] at ran
          obtain ⟨rfl, rfl⟩ := ran
          exact nofun
        · next role found =>
          split at ran
          · simp only [run_run_throw] at ran
            obtain ⟨rfl, rfl⟩ := ran
            exact nofun
          · simp only [run_run_bind] at ran
            obtain ⟨parent, member, parentNot⟩ :=
              exists_parent_not_resolvableFrom custom found notResolvable
            rcases loopRan : (forIn role.parents PUnit.unit fun parent _ => do
                source.visit (name :: path) parent
                pure (ForInStep.yield PUnit.unit)).run.run memo with ⟨loopResult, afterLoop⟩
            have loopFails := forIn_run_ne_ok (fun state => state.Sound source ∧ state.Settled source)
              (fun parent _ state result state' kept parentRan =>
                visit_keeps_settled (name :: path) parent kept parentRan)
              member (fun state result state' kept parentRan =>
                ih notOnPath role found parent parentNot kept.1 kept.2 parentRan)
              ⟨sound, settled⟩ loopRan
            rw [loopRan] at ran
            cases loopResult with
            | error e =>
                obtain ⟨rfl, rfl⟩ := ran
                exact nofun
            | ok done => exact absurd rfl loopFails
    · simp only [run_run_throw] at ran
      obtain ⟨rfl, rfl⟩ := ran
      exact nofun

/-- Two sound, settled memos lead a search to the same result. Through a resolvable role it
succeeds from both; through any other role neither memo remembers it, so both runs take the same
steps up to the loop over its parents, whose searches agree in turn. -/
theorem visit_agrees (path : List String) (name : String)
    (below : ∀ p ∈ path, Relation.TransGen source.Extends p name)
    {memo memo' after after' : RoleMemo} {result result' : Except ExpandError Unit}
    (settled : memo.Sound source ∧ memo.Settled source)
    (settled' : memo'.Sound source ∧ memo'.Settled source)
    (ran : (source.visit path name).run.run memo = (result, after))
    (ran' : (source.visit path name).run.run memo' = (result', after')) : result = result' := by
  induction path, name using visit.induct source
    generalizing memo memo' after after' result result' with
  | case1 path name ih =>
  by_cases resolvable : source.ResolvableFrom name
  · rw [visit_ok_of_resolvableFrom path name resolvable below settled.1 ran,
      visit_ok_of_resolvableFrom path name resolvable below settled'.1 ran']
  have forgotten : ∀ state : RoleMemo, state.Settled source →
      (state.resolved.lookup name).isSome = false := fun state stateSettled =>
    Bool.eq_false_iff.mpr fun remembered => resolvable (stateSettled.resolvable remembered)
  rw [visit] at ran ran'
  simp only [run_run_bind, run_memoized, forgotten memo settled.2, forgotten memo' settled'.2,
    Bool.false_eq_true, ↓reduceIte] at ran ran'
  split at ran
  · next builtin =>
    rw [if_pos builtin] at ran'
    split at ran
    · next unknown =>
      rw [unknown] at ran'
      simp only [run_run_throw] at ran ran'
      obtain ⟨rfl, -⟩ := ran
      obtain ⟨rfl, -⟩ := ran'
      rfl
    · next role found =>
      exact absurd (resolvableFrom_builtin builtin (by rw [found]; rfl)) resolvable
  · next notBuiltin =>
    rw [if_neg notBuiltin] at ran'
    split at ran
    · next custom =>
      rw [if_pos custom] at ran'
      split at ran
      · next onPath =>
        rw [dif_pos onPath] at ran'
        simp only [run_run_throw] at ran ran'
        obtain ⟨rfl, -⟩ := ran
        obtain ⟨rfl, -⟩ := ran'
        rfl
      · next notOnPath =>
        rw [dif_neg notOnPath] at ran'
        split at ran
        · next undeclared =>
          split at ran'
          · simp only [run_run_throw] at ran ran'
            obtain ⟨rfl, -⟩ := ran
            obtain ⟨rfl, -⟩ := ran'
            rfl
          · next role found =>
            rw [undeclared] at found
            cases found
        · next role found =>
          split at ran'
          · next undeclared =>
            rw [undeclared] at found
            cases found
          · next role' found' =>
            rw [found] at found'
            cases found'
            split at ran
            · next parent closing =>
              rw [closing] at ran'
              simp only [run_run_throw] at ran ran'
              obtain ⟨rfl, -⟩ := ran
              obtain ⟨rfl, -⟩ := ran'
              rfl
            · next notClosing =>
              rw [notClosing] at ran'
              simp only [run_run_bind] at ran ran'
              -- every role on the path below a parent reaches the parent
              have belowParent : ∀ parent ∈ role.parents, ∀ p ∈ name :: path,
                  Relation.TransGen source.Extends p parent := by
                intro parent member p onPath
                have step : source.Extends name parent := ⟨custom, role, found, member⟩
                rcases List.mem_cons.mp onPath with rfl | later
                · exact .single step
                · exact (below p later).tail step
              rcases loopRan : (forIn role.parents PUnit.unit fun parent _ => do
                  source.visit (name :: path) parent
                  pure (ForInStep.yield PUnit.unit)).run.run memo with ⟨loopResult, afterLoop⟩
              rcases loopRan' : (forIn role.parents PUnit.unit fun parent _ => do
                  source.visit (name :: path) parent
                  pure (ForInStep.yield PUnit.unit)).run.run memo' with ⟨loopResult', afterLoop'⟩
              have sameLoop : loopResult = loopResult' :=
                forIn_agrees (fun state => state.Sound source ∧ state.Settled source)
                  (fun parent member _ _ _ _ _ _ kept kept' parentRan parentRan' =>
                    ⟨ih notOnPath role found parent (belowParent parent member) kept kept'
                      parentRan parentRan',
                      visit_keeps_settled (name :: path) parent kept parentRan,
                      visit_keeps_settled (name :: path) parent kept' parentRan'⟩)
                  settled settled' loopRan loopRan'
              rw [loopRan] at ran
              rw [loopRan', ← sameLoop] at ran'
              cases loopResult with
              | error e =>
                  cases ran
                  cases ran'
                  rfl
              | ok done =>
                  -- the loop meets a parent that is not resolvable, so it cannot succeed
                  obtain ⟨parent, member, parentNot⟩ :=
                    exists_parent_not_resolvableFrom custom found resolvable
                  exact absurd rfl (forIn_run_ne_ok
                    (fun state => state.Sound source ∧ state.Settled source)
                    (fun parent _ _ _ _ kept parentRan =>
                      visit_keeps_settled (name :: path) parent kept parentRan)
                    member (fun _ _ _ kept parentRan =>
                      visit_fails (name :: path) parent parentNot kept.1 kept.2 parentRan)
                    settled loopRan)
    · next notCustom =>
      rw [if_neg notCustom] at ran'
      simp only [run_run_throw] at ran ran'
      obtain ⟨rfl, -⟩ := ran
      obtain ⟨rfl, -⟩ := ran'
      rfl

/-! ### What a resolution answers -/

/-- A resolution whose search fails fails with the search's error. -/
theorem run_resolve_of_error {name : String} {memo after : RoleMemo} {e : ExpandError}
    (visitRan : (source.visit [] name).run.run memo = (.error e, after)) :
    (source.resolve name).run.run memo = (.error e, after) := by
  unfold resolve
  rw [run_run_bind, visitRan]

/-- After a successful search, a resolution answers what the memo remembers for the role. -/
theorem run_resolve_of_ok {name : String} {memo after : RoleMemo}
    (visitRan : (source.visit [] name).run.run memo = (.ok (), after)) :
    (source.resolve name).run.run memo =
      ((after.resolved.lookup name).elim (.error (.unknownRole name)) .ok, after) := by
  unfold resolve
  rw [run_run_bind, visitRan]
  simp only [run_run_bind, run_memoized]
  cases after.resolved.lookup name <;> rfl

/-- A successful resolution answers what the memo remembers for the role. -/
theorem lookup_of_resolve {name : String} {memo memo' : RoleMemo} {permissions : List Nat}
    (ran : (source.resolve name).run.run memo = (.ok permissions, memo')) :
    memo'.resolved.lookup name = some permissions := by
  rcases visitRan : (source.visit [] name).run.run memo with ⟨visited, afterVisit⟩
  cases visited with
  | error e =>
      rw [run_resolve_of_error visitRan] at ran
      cases ran
  | ok done =>
      rw [run_resolve_of_ok visitRan] at ran
      cases found : afterVisit.resolved.lookup name with
      | none =>
          rw [found] at ran
          cases ran
      | some remembered =>
          rw [found] at ran
          cases ran
          exact found

/-- Resolution from a sound, settled memo succeeds exactly when the role is resolvable, and then
answers strictly increasing numbers of exactly the permissions the role grants. -/
theorem resolve_settled (name : String) {memo memo' : RoleMemo}
    {result : Except ExpandError (List Nat)} (kept : memo.Sound source ∧ memo.Settled source)
    (ran : (source.resolve name).run.run memo = (result, memo')) :
    ((∃ permissions, result = .ok permissions) ↔ source.ResolvableFrom name) ∧
      ∀ permissions, result = .ok permissions →
        permissions.SortedLT ∧ memo'.table.Lists permissions (source.Grants name) := by
  have settledAfter := (resolutionKeeps_settled name memo result memo' kept ran).2
  have answered := (resolve_spec source name kept.1 ran).2.2
  refine ⟨⟨fun ⟨permissions, succeeded⟩ => ?_, fun resolvable => ?_⟩, fun permissions succeeded =>
    ⟨?_, (answered permissions succeeded).1⟩⟩
  · -- a search through a role that is not resolvable fails, and so does the resolution
    by_contra notResolvable
    rcases visitRan : (source.visit [] name).run.run memo with ⟨visited, afterVisit⟩
    cases visited with
    | error e =>
        rw [run_resolve_of_error visitRan, succeeded] at ran
        cases ran
    | ok done => exact visit_fails [] name notResolvable kept.1 kept.2 visitRan rfl
  · rcases visitRan : (source.visit [] name).run.run memo with ⟨visited, afterVisit⟩
    have visitOk := visit_ok_of_resolvableFrom [] name resolvable (fun _ member => nomatch member)
      kept.1 visitRan
    obtain ⟨-, -, visitDone⟩ := visit_resolves source [] name memo visited afterVisit kept.1 visitRan
    obtain ⟨permissions, found⟩ := Option.isSome_iff_exists.mp (visitDone visitOk).1
    rw [visitOk] at visitRan
    rw [run_resolve_of_ok visitRan, found] at ran
    cases ran
    exact ⟨permissions, rfl⟩
  · rw [succeeded] at ran
    exact settledAfter.sortedLT (lookup_of_resolve ran)

/-- Two sound, settled memos lead a resolution to answers that name the same permissions, or to
the same error. -/
theorem resolve_agrees (name : String) {memo memo' after after' : RoleMemo}
    {result result' : Except ExpandError (List Nat)}
    (kept : memo.Sound source ∧ memo.Settled source)
    (kept' : memo'.Sound source ∧ memo'.Settled source)
    (ran : (source.resolve name).run.run memo = (result, after))
    (ran' : (source.resolve name).run.run memo' = (result', after')) :
    result.map after.table.namesOf = result'.map after'.table.namesOf := by
  have answered := (resolve_spec source name kept.1 ran).2.2
  have answered' := (resolve_spec source name kept'.1 ran').2.2
  rcases visitRan : (source.visit [] name).run.run memo with ⟨visited, afterVisit⟩
  rcases visitRan' : (source.visit [] name).run.run memo' with ⟨visited', afterVisit'⟩
  have same : visited = visited' :=
    visit_agrees [] name (fun _ member => nomatch member) kept kept' visitRan visitRan'
  rw [← same] at visitRan'
  cases visited with
  | error e =>
      rw [run_resolve_of_error visitRan] at ran
      rw [run_resolve_of_error visitRan'] at ran'
      cases ran
      cases ran'
      rfl
  | ok done =>
      -- both searches remember the role, and both answers name what it grants
      obtain ⟨-, -, visitDone⟩ := visit_resolves source [] name memo _ afterVisit kept.1 visitRan
      obtain ⟨-, -, visitDone'⟩ :=
        visit_resolves source [] name memo' _ afterVisit' kept'.1 visitRan'
      obtain ⟨permissions, found⟩ := Option.isSome_iff_exists.mp (visitDone rfl).1
      obtain ⟨permissions', found'⟩ := Option.isSome_iff_exists.mp (visitDone' rfl).1
      rw [run_resolve_of_ok visitRan, found] at ran
      rw [run_resolve_of_ok visitRan', found'] at ran'
      cases ran
      cases ran'
      show Except.ok _ = Except.ok _
      rw [(answered permissions rfl).1.namesOf_eq, (answered' permissions' rfl).1.namesOf_eq]

end RoleSource

/-- Resolving a role on the memo that any earlier resolutions left, failed ones included: it
succeeds exactly when the role is resolvable, with strictly increasing numbers of exactly the
permissions the role grants, and what it answers, read as names, is what a fresh memo answers. -/
theorem resolution_ignores_history (source : RoleSource) (history : List String) (name : String) :
    let after := (source.resolve name).run.run (source.resolveAll {} history).2
    let fresh := (source.resolve name).run.run {}
    ((∃ permissions, after.1 = .ok permissions) ↔ source.ResolvableFrom name) ∧
      (∀ permissions, after.1 = .ok permissions →
        permissions.SortedLT ∧ after.2.table.Lists permissions (source.Grants name)) ∧
      after.1.map after.2.table.namesOf = fresh.1.map fresh.2.table.namesOf := by
  intro after fresh
  have start : ({} : RoleMemo).Sound source ∧ ({} : RoleMemo).Settled source :=
    ⟨RoleMemo.sound_empty source, RoleMemo.settled_empty source⟩
  have kept := RoleSource.resolveAll_keeps RoleSource.resolutionKeeps_settled history start
  obtain ⟨succeeds, answers⟩ := RoleSource.resolve_settled name kept rfl
  exact ⟨succeeds, answers, RoleSource.resolve_agrees name kept start rfl rfl⟩

end RealmAccess
