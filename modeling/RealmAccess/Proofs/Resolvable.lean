import RealmAccess.Proofs.Acceptance
import RealmAccess.Proofs.Acyclic
import RealmAccess.Proofs.Resolution
/-!
# Resolution of a known role succeeds

Resolution fails with an unknown role, an invalid role or a cycle of custom roles. None of these
can happen when no custom role reaches itself through its custom parents and every parent of a
declared custom role is known (`RoleSource.Resolvable`); a checked configuration has both. Then
resolving any known role succeeds, from any sound memo.

The search carries one invariant down the path of custom roles being resolved: the role being
visited is an ancestor of every role on the path, so meeting one of them again would close a
cycle.
-/

namespace RealmAccess

namespace RoleSource

/-- `parent` is a custom role listed as a parent of the custom role `child`. -/
def CustomParentOf (source : RoleSource) (parent child : String) : Prop :=
  parent.startsWith customRolePrefix = true ∧
    ∃ role, source.customRole? child = some role ∧ parent ∈ role.parents

/-- What makes every resolution of a known role succeed. -/
structure Resolvable (source : RoleSource) : Prop where
  acyclic : ∀ name, ¬ Relation.TransGen source.CustomParentOf name name
  parentsKnown : ∀ role ∈ source.customRoles, ∀ parent ∈ role.parents,
    RoleKnown source.registry source.customNames parent

variable {source : RoleSource}

theorem mem_of_customRole? {name : String} {role : CustomRole}
    (found : source.customRole? name = some role) : role ∈ source.customRoles :=
  List.mem_reverse.mp (List.mem_of_find?_eq_some found)

theorem customRole?_isSome {name : String} (declared : name ∈ source.customNames) :
    (source.customRole? name).isSome := by
  obtain ⟨role, member, rfl⟩ := List.mem_map.mp declared
  exact List.find?_isSome.mpr ⟨role, List.mem_reverse.mpr member, beq_self_eq_true _⟩

/-- With distinct names, the custom role found by a name is the one of that name. -/
theorem customRole?_eq_some_iff (distinct : source.customNames.Nodup) {name : String}
    {role : CustomRole} :
    source.customRole? name = some role ↔ role ∈ source.customRoles ∧ role.name = name := by
  constructor
  · intro found
    have selected := List.find?_some found
    exact ⟨mem_of_customRole? found, beq_iff_eq.mp selected⟩
  · rintro ⟨member, rfl⟩
    obtain ⟨found, foundEq⟩ :=
      Option.isSome_iff_exists.mp (customRole?_isSome (List.mem_map_of_mem member))
    have selected := List.find?_some foundEq
    have same : found = role :=
      List.inj_on_of_nodup_map distinct (mem_of_customRole? foundEq) member (beq_iff_eq.mp selected)
    rw [foundEq, same]

/-- The parents the cycle search sees for a custom role are its custom parents. -/
theorem parentsOf_customRoleInheritance {name : String} {role : CustomRole}
    (found : source.customRole? name = some role) :
    (customRoleInheritance source.customRoles).parentsOf name =
      role.parents.filter (·.startsWith customRolePrefix) := by
  unfold customRole? at found
  unfold Inheritance.parentsOf customRoleInheritance
  rw [← List.map_reverse, List.find?_map]
  have sameTest : ((fun entry : String × List String => entry.1 == name) ∘
      fun role : CustomRole => (role.name, role.parents.filter (·.startsWith customRolePrefix))) =
      fun role => role.name == name := rfl
  rw [sameTest, found]
  rfl

theorem parentOf_of_customParentOf {parent child : String}
    (listed : source.CustomParentOf parent child) :
    (customRoleInheritance source.customRoles).ParentOf parent child := by
  obtain ⟨custom, role, found, member⟩ := listed
  unfold Inheritance.ParentOf
  rw [parentsOf_customRoleInheritance found]
  exact List.mem_filter.mpr ⟨member, custom⟩

/-- A visit of a known role succeeds when it is an ancestor of every custom role on the path. -/
theorem visit_ok (resolvable : source.Resolvable) (path : List String) (name : String)
    (known : RoleKnown source.registry source.customNames name)
    (pathCustom : ∀ p ∈ path, p.startsWith customRolePrefix = true)
    (below : name.startsWith customRolePrefix = true →
      ∀ p ∈ path, Relation.TransGen source.CustomParentOf name p)
    {memo memo' : RoleMemo} {result : Except ExpandError Unit} (sound : memo.Sound source)
    (ran : (source.visit path name).run.run memo = (result, memo')) : result = .ok () := by
  induction path, name using visit.induct source generalizing memo result memo' with
  | case1 path name ih =>
  rw [visit] at ran
  simp only [run_run_bind, run_memoized] at ran
  by_cases remembered : (memo.resolved.lookup name).isSome
  · simp only [remembered, if_true, run_run_pure] at ran
    obtain ⟨rfl, rfl⟩ := ran
    rfl
  simp only [remembered, Bool.false_eq_true, ↓reduceIte] at ran
  split at ran
  · next builtin =>
    split at ran
    · next unknown =>
      exfalso
      rcases known with ⟨custom, -⟩ | ⟨-, registered⟩
      · rw [not_builtin_of_custom custom] at builtin
        cases builtin
      · rw [unknown] at registered
        cases registered
    · simp only [run_run_bind, run_number, run_remember] at ran
      obtain ⟨rfl, rfl⟩ := ran
      rfl
  · next notBuiltin =>
    split at ran
    · next custom =>
      split at ran
      · next onPath => exact absurd (below custom name onPath) (resolvable.acyclic name)
      · next notOnPath =>
        split at ran
        · exfalso
          rcases known with ⟨-, declared⟩ | ⟨builtin, -⟩
          · have undeclared : source.customRole? name = none := by assumption
            have present := customRole?_isSome declared
            rw [undeclared] at present
            cases present
          · exact notBuiltin builtin
        · next role found =>
          have parentCustom : ∀ parent ∈ role.parents, parent.startsWith customRolePrefix = true →
              source.CustomParentOf parent name :=
            fun parent member parentIsCustom => ⟨parentIsCustom, role, found, member⟩
          split at ran
          · next parent closing =>
            -- a parent met again on the path closes a cycle
            exfalso
            have selected := List.find?_some closing
            have onPath : parent ∈ name :: path := of_decide_eq_true selected
            have member : parent ∈ role.parents :=
              List.mem_reverse.mp (List.mem_of_find?_eq_some closing)
            rcases List.mem_cons.mp onPath with rfl | later
            · exact resolvable.acyclic parent (.single (parentCustom parent member custom))
            · exact resolvable.acyclic parent
                (.head (parentCustom parent member (pathCustom parent later)) (below custom parent later))
          · simp only [run_run_bind] at ran
            rcases loopRan : (forIn role.parents PUnit.unit fun parent _ => do
                source.visit (name :: path) parent
                pure (ForInStep.yield PUnit.unit)).run.run memo with ⟨loopResult, afterLoop⟩
            have stepsOk : ∀ parent ∈ role.parents, ∀ memo result memo', memo.Sound source →
                (source.visit (name :: path) parent).run.run memo = (result, memo') →
                result = .ok () := by
              intro parent member memo result memo' sound ran
              refine ih notOnPath role found parent
                (resolvable.parentsKnown role (mem_of_customRole? found) parent member) ?_ ?_ sound ran
              · intro p onPath
                rcases List.mem_cons.mp onPath with rfl | later
                · exact custom
                · exact pathCustom p later
              · intro parentIsCustom p onPath
                have edge := parentCustom parent member parentIsCustom
                rcases List.mem_cons.mp onPath with rfl | later
                · exact .single edge
                · exact .head edge (below custom p later)
            have loopOk := forIn_run_ok (·.Sound source)
              (fun parent member memo result memo' sound ran =>
                ⟨stepsOk parent member memo result memo' sound ran,
                  (visit_resolves source (name :: path) parent memo result memo' sound ran).1⟩)
              sound loopRan
            obtain ⟨loopSound, -, loopDone⟩ :=
              forIn_resolves (fun parent _ => visit_resolves source (name :: path) parent) sound loopRan
            rw [loopRan, loopOk] at ran
            have stillRemembered : ∀ parent ∈ role.parents,
                RoleMemo.Remembers { afterLoop with
                  table := (afterLoop.table.internAll role.permissions).2 } parent :=
              (loopDone loopOk).1
            simp only [run_number, run_mapM_inherited stillRemembered, run_remember] at ran
            obtain ⟨rfl, rfl⟩ := ran
            rfl
    · next notCustom =>
      exfalso
      rcases known with ⟨custom, -⟩ | ⟨builtin, -⟩
      · exact notCustom custom
      · exact notBuiltin builtin

/-- Resolving a known role succeeds. -/
theorem resolve_ok (resolvable : source.Resolvable) {name : String}
    (known : RoleKnown source.registry source.customNames name) {memo memo' : RoleMemo}
    {result : Except ExpandError (List Nat)} (sound : memo.Sound source)
    (ran : (source.resolve name).run.run memo = (result, memo')) :
    ∃ permissions, result = .ok permissions := by
  unfold resolve at ran
  rw [run_run_bind] at ran
  rcases visitRan : (source.visit [] name).run.run memo with ⟨visited, afterVisit⟩
  have visitOk := visit_ok resolvable [] name known (fun _ member => (nomatch member))
    (fun _ _ member => (nomatch member)) sound visitRan
  obtain ⟨-, -, visitDone⟩ := visit_resolves source [] name memo visited afterVisit sound visitRan
  obtain ⟨permissions, found⟩ := Option.isSome_iff_exists.mp (visitDone visitOk).1
  rw [visitRan, visitOk] at ran
  simp only [run_run_bind, run_memoized, found, run_run_pure] at ran
  cases ran
  exact ⟨permissions, rfl⟩

end RoleSource

/-- A checked configuration's roles resolve. -/
theorem Config.Checked.resolvable {config : Config} {registry : Registry}
    (checked : config.Checked registry) : RoleSource.Resolvable ⟨registry, config.customRoles⟩ where
  acyclic name cycle := by
    have listed : ∀ entry ∈ customRoleInheritance config.customRoles,
        entry.1 ∈ config.customRoles.map (·.name) := by
      intro entry member
      obtain ⟨role, roleMember, rfl⟩ := List.mem_map.mp member
      exact List.mem_map_of_mem roleMember
    exact Inheritance.not_transGen_self
      (Inheritance.wellFounded_of_findCycle checked.customAcyclic listed) name
      (cycle.lift id fun _ _ => RoleSource.parentOf_of_customParentOf)
  parentsKnown := checked.customParents

end RealmAccess
