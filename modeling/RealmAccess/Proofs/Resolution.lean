import RealmAccess.Expansion.Roles
import RealmAccess.Proofs.Acceptance
import RealmAccess.Proofs.NameTable
import Mathlib.Logic.Relation
/-!
# Resolving roles: the permissions a role grants

`RoleSource.Grants` is what resolution computes: a built-in role grants the permissions the
registry lists for it, a custom role grants its own permissions and every permission of a role it
extends. The relation is inductive, so a cycle of custom roles adds nothing by going round.

`RoleMemo.Sound` is the invariant of the memo: the numbering holds distinct names, and every
remembered role is listed with the numbers of exactly the permissions it grants. Every run of
`visit` keeps the memo sound and only extends it (`RoleMemo.Extends`), failed runs included; a
successful run remembers the role and numbers no permission the role does not grant. So a
successful `resolve` answers with the numbers of exactly the role's permissions.
-/

namespace RealmAccess

theorem not_builtin_of_custom {name : String} (custom : name.startsWith customRolePrefix = true) :
    name.startsWith builtinRolePrefix = false := by
  rw [String.startsWith_string_iff] at custom
  rw [String.startsWith_string_eq_false_iff]
  intro builtin
  obtain ⟨customRest, customSplit⟩ := custom
  obtain ⟨builtinRest, builtinSplit⟩ := builtin
  have clash := customSplit.trans builtinSplit.symm
  simp [customRolePrefix, builtinRolePrefix] at clash

namespace RoleSource

/-- The permissions a role grants, through any number of custom roles it extends. -/
inductive Grants (source : RoleSource) : String → String → Prop
  | builtin {name permission : String} {role : RoleDef} :
      name.startsWith builtinRolePrefix = true → source.registry.role? name = some role →
      permission ∈ role.permissions → source.Grants name permission
  | own {name permission : String} {role : CustomRole} :
      name.startsWith customRolePrefix = true → source.customRole? name = some role →
      permission ∈ role.permissions → source.Grants name permission
  | inherited {name parent permission : String} {role : CustomRole} :
      name.startsWith customRolePrefix = true → source.customRole? name = some role →
      parent ∈ role.parents → source.Grants parent permission → source.Grants name permission

theorem grants_builtin_iff {source : RoleSource} {name : String} {role : RoleDef}
    (builtin : name.startsWith builtinRolePrefix = true) (found : source.registry.role? name = some role)
    {permission : String} : source.Grants name permission ↔ permission ∈ role.permissions := by
  constructor
  · intro granted
    cases granted with
    | builtin _ found' member =>
        rw [found] at found'
        cases found'
        exact member
    | own custom _ _ =>
        rw [not_builtin_of_custom custom] at builtin
        cases builtin
    | inherited custom _ _ _ =>
        rw [not_builtin_of_custom custom] at builtin
        cases builtin
  · intro member
    exact .builtin builtin found member

theorem grants_custom_iff {source : RoleSource} {name : String} {role : CustomRole}
    (custom : name.startsWith customRolePrefix = true) (found : source.customRole? name = some role)
    {permission : String} :
    source.Grants name permission ↔
      permission ∈ role.permissions ∨ ∃ parent ∈ role.parents, source.Grants parent permission := by
  constructor
  · intro granted
    cases granted with
    | builtin builtin _ _ =>
        rw [not_builtin_of_custom custom] at builtin
        cases builtin
    | own _ found' member =>
        rw [found] at found'
        cases found'
        exact Or.inl member
    | inherited _ found' parentMember parentGrants =>
        rw [found] at found'
        cases found'
        exact Or.inr ⟨_, parentMember, parentGrants⟩
  · rintro (member | ⟨parent, parentMember, parentGrants⟩)
    · exact .own custom found member
    · exact .inherited custom found parentMember parentGrants

end RoleSource

namespace RoleMemo

/-- The memo's invariant: distinct numbered names, and every remembered role known and listed
with the numbers of exactly the permissions it grants. -/
structure Sound (source : RoleSource) (memo : RoleMemo) : Prop where
  distinct : memo.table.names.Nodup
  resolved : ∀ entry ∈ memo.resolved, memo.table.Lists entry.2 (source.Grants entry.1)
  known : ∀ entry ∈ memo.resolved, RoleKnown source.registry source.customNames entry.1

/-- A later memo: the numbering extended, and every remembered role still remembered. -/
structure Extends (before after : RoleMemo) : Prop where
  names : before.table.names <+: after.table.names
  resolved : ∀ entry ∈ before.resolved, entry ∈ after.resolved

theorem sound_empty (source : RoleSource) : ({} : RoleMemo).Sound source where
  distinct := List.nodup_nil
  resolved _ member := nomatch member
  known _ member := nomatch member

theorem Extends.refl (memo : RoleMemo) : memo.Extends memo :=
  ⟨List.prefix_refl _, fun _ member => member⟩

theorem Extends.trans {first second third : RoleMemo} (early : first.Extends second)
    (late : second.Extends third) : first.Extends third :=
  ⟨early.names.trans late.names, fun entry member => late.resolved entry (early.resolved entry member)⟩

/-- Whether a role is remembered. -/
def Remembers (memo : RoleMemo) (name : String) : Prop :=
  (memo.resolved.lookup name).isSome

theorem Extends.remembers {before after : RoleMemo} (later : before.Extends after) {name : String}
    (remembered : before.Remembers name) : after.Remembers name := by
  unfold Remembers at remembered ⊢
  rw [List.lookup_isSome_iff] at remembered ⊢
  obtain ⟨entry, member, same⟩ := remembered
  exact ⟨entry, later.resolved entry member, same⟩

theorem Sound.lists {source : RoleSource} {memo : RoleMemo} (sound : memo.Sound source)
    {name : String} {permissions : List Nat} (found : memo.resolved.lookup name = some permissions) :
    memo.table.Lists permissions (source.Grants name) :=
  sound.resolved (name, permissions) (mem_of_lookup_eq_some found)

/-- A remembered role has every permission it grants numbered. -/
theorem Sound.mem_names {source : RoleSource} {memo : RoleMemo} (sound : memo.Sound source)
    {name : String} (remembered : memo.Remembers name) {permission : String}
    (granted : source.Grants name permission) : permission ∈ memo.table.names := by
  obtain ⟨permissions, found⟩ := Option.isSome_iff_exists.mp remembered
  obtain ⟨i, -, named⟩ := ((sound.lists found).exact permission).mpr granted
  exact List.mem_of_getElem? named

end RoleMemo

namespace RoleSource

/-- What a step of resolution for `name` does from a sound memo: the memo stays sound and is
extended, and on success `name` is remembered and every newly numbered permission is one that
`name` grants. -/
def Resolves (source : RoleSource) (name : String) (step : ResolveM Unit) : Prop :=
  ∀ memo result memo', memo.Sound source → step.run.run memo = (result, memo') →
    memo'.Sound source ∧ memo.Extends memo' ∧
      (result = .ok () → memo'.Remembers name ∧
        ∀ x ∈ memo'.table.names, x ∈ memo.table.names ∨ source.Grants name x)

theorem run_memoized (name : String) (memo : RoleMemo) :
    (memoized name).run.run memo = (.ok (memo.resolved.lookup name), memo) := rfl

theorem run_remember (name : String) (permissions : List Nat) (memo : RoleMemo) :
    (remember name permissions).run.run memo =
      (.ok (), { memo with resolved := (name, permissions) :: memo.resolved }) := rfl

theorem run_number (names : List String) (memo : RoleMemo) :
    (number names).run.run memo =
      (.ok (memo.table.internAll names).1, { memo with table := (memo.table.internAll names).2 }) :=
  rfl

theorem run_mapM_inherited {memo : RoleMemo} {parents : List String}
    (remembered : ∀ parent ∈ parents, memo.Remembers parent) :
    (parents.mapM inherited).run.run memo =
      (.ok (parents.map fun parent => (memo.resolved.lookup parent).getD []), memo) := by
  induction parents with
  | nil => rfl
  | cons parent more ih =>
      obtain ⟨permissions, found⟩ :=
        Option.isSome_iff_exists.mp (remembered parent List.mem_cons_self)
      have rest := ih fun other member => remembered other (List.mem_cons_of_mem parent member)
      have first : (inherited parent).run.run memo = (.ok permissions, memo) := by
        simp only [inherited, run_run_bind, run_memoized, found]
        rfl
      rw [List.mapM_cons, run_run_bind_of_ok first, run_run_bind_of_ok rest]
      simp only [List.map_cons, found, Option.getD_some]
      rfl

/-- A remembered entry numbered from the table it was made against stays sound. -/
theorem sound_remember {source : RoleSource} {memo : RoleMemo} (sound : memo.Sound source)
    {name : String} {permissions : List Nat}
    (listed : memo.table.Lists permissions (source.Grants name))
    (known : RoleKnown source.registry source.customNames name) :
    RoleMemo.Sound source { memo with resolved := (name, permissions) :: memo.resolved } where
  distinct := sound.distinct
  resolved entry member := by
    rcases List.mem_cons.mp member with rfl | earlier
    · exact listed
    · exact sound.resolved entry earlier
  known entry member := by
    rcases List.mem_cons.mp member with rfl | earlier
    · exact known
    · exact sound.known entry earlier

theorem sound_number {source : RoleSource} {memo : RoleMemo} (sound : memo.Sound source)
    (names : List String) :
    RoleMemo.Sound source { memo with table := (memo.table.internAll names).2 } where
  distinct := (NameTable.internAll_spec sound.distinct names).2.1
  resolved entry member :=
    (sound.resolved entry member).mono (NameTable.internAll_spec sound.distinct names).1
  known := sound.known

theorem extends_number (memo : RoleMemo) (names : List String) (distinct : memo.table.names.Nodup) :
    memo.Extends { memo with table := (memo.table.internAll names).2 } :=
  ⟨(NameTable.internAll_spec distinct names).1, fun _ member => member⟩

theorem extends_remember (memo : RoleMemo) (name : String) (permissions : List Nat) :
    memo.Extends { memo with resolved := (name, permissions) :: memo.resolved } :=
  ⟨List.prefix_refl _, fun _ member => List.mem_cons_of_mem _ member⟩

theorem remembers_remember (memo : RoleMemo) (name : String) (permissions : List Nat) :
    RoleMemo.Remembers { memo with resolved := (name, permissions) :: memo.resolved } name := by
  simp [RoleMemo.Remembers]

theorem forIn_resolves {source : RoleSource} {step : String → ResolveM Unit}
    {parents : List String} (each : ∀ parent ∈ parents, source.Resolves parent (step parent))
    {memo memo' : RoleMemo} {result : Except ExpandError PUnit} (sound : memo.Sound source)
    (ran : (forIn parents PUnit.unit fun parent _ => do
        step parent
        pure (ForInStep.yield PUnit.unit)).run.run memo = (result, memo')) :
    memo'.Sound source ∧ memo.Extends memo' ∧
      (result = .ok () → (∀ parent ∈ parents, memo'.Remembers parent) ∧
        ∀ x ∈ memo'.table.names, x ∈ memo.table.names ∨ ∃ parent ∈ parents, source.Grants parent x) := by
  induction parents generalizing memo with
  | nil =>
      simp only [List.forIn_nil, run_run_pure, Prod.mk.injEq] at ran
      obtain ⟨rfl, rfl⟩ := ran
      refine ⟨sound, .refl memo, fun _ => ⟨?_, ?_⟩⟩
      · intro other member
        cases member
      · intro x member
        exact Or.inl member
  | cons parent more ih =>
      simp only [List.forIn_cons, run_run_bind] at ran
      rcases stepRan : (step parent).run.run memo with ⟨first, middle⟩
      obtain ⟨middleSound, middleExtends, middleDone⟩ :=
        each parent List.mem_cons_self memo first middle sound stepRan
      rw [stepRan] at ran
      cases first with
      | error e =>
          simp only [Prod.mk.injEq] at ran
          obtain ⟨rfl, rfl⟩ := ran
          exact ⟨middleSound, middleExtends, fun failed => by cases failed⟩
      | ok done =>
          simp only [run_run_pure] at ran
          obtain ⟨laterSound, laterExtends, laterDone⟩ :=
            ih (fun other member => each other (List.mem_cons_of_mem parent member)) middleSound ran
          refine ⟨laterSound, middleExtends.trans laterExtends, fun succeeded => ?_⟩
          obtain ⟨remembered, numbered⟩ := middleDone rfl
          obtain ⟨laterRemembered, laterNumbered⟩ := laterDone succeeded
          constructor
          · intro other member
            rcases List.mem_cons.mp member with rfl | later
            · exact laterExtends.remembers remembered
            · exact laterRemembered other later
          · intro x member
            rcases laterNumbered x member with earlier | ⟨other, otherMember, granted⟩
            · rcases numbered x earlier with older | granted
              · exact Or.inl older
              · exact Or.inr ⟨parent, List.mem_cons_self, granted⟩
            · exact Or.inr ⟨other, List.mem_cons_of_mem parent otherMember, granted⟩

theorem lists_inherited {source : RoleSource} {memo : RoleMemo} (sound : memo.Sound source)
    {parents : List String} (remembered : ∀ parent ∈ parents, memo.Remembers parent) :
    memo.table.Lists (parents.map fun parent => (memo.resolved.lookup parent).getD []).flatten
      (fun x => ∃ parent ∈ parents, source.Grants parent x) where
  inRange i member := by
    obtain ⟨permissions, inMap, inPermissions⟩ := List.mem_flatten.mp member
    obtain ⟨parent, parentMember, rfl⟩ := List.mem_map.mp inMap
    obtain ⟨found, isFound⟩ := Option.isSome_iff_exists.mp (remembered parent parentMember)
    rw [isFound, Option.getD_some] at inPermissions
    exact (sound.lists isFound).inRange i inPermissions
  exact x := by
    constructor
    · rintro ⟨i, member, named⟩
      obtain ⟨permissions, inMap, inPermissions⟩ := List.mem_flatten.mp member
      obtain ⟨parent, parentMember, rfl⟩ := List.mem_map.mp inMap
      obtain ⟨found, isFound⟩ := Option.isSome_iff_exists.mp (remembered parent parentMember)
      rw [isFound, Option.getD_some] at inPermissions
      exact ⟨parent, parentMember, ((sound.lists isFound).exact x).mp ⟨i, inPermissions, named⟩⟩
    · rintro ⟨parent, parentMember, granted⟩
      obtain ⟨found, isFound⟩ := Option.isSome_iff_exists.mp (remembered parent parentMember)
      obtain ⟨i, inPermissions, named⟩ := ((sound.lists isFound).exact x).mpr granted
      refine ⟨i, List.mem_flatten.mpr ⟨found, List.mem_map.mpr ⟨parent, parentMember, ?_⟩, inPermissions⟩, named⟩
      rw [isFound, Option.getD_some]

theorem visit_resolves (source : RoleSource) (path : List String) (name : String) :
    source.Resolves name (source.visit path name) := by
  induction path, name using visit.induct source with
  | case1 path name ih =>
  intro memo result memo' sound ran
  rw [visit] at ran
  simp only [run_run_bind, run_memoized] at ran
  by_cases known : (memo.resolved.lookup name).isSome
  · -- a remembered role is answered from the memo
    simp only [known, if_true, run_run_pure] at ran
    obtain ⟨rfl, rfl⟩ := ran
    refine ⟨sound, .refl memo, fun _ => ⟨known, ?_⟩⟩
    intro x member
    exact Or.inl member
  simp only [known, Bool.false_eq_true, ↓reduceIte] at ran
  split at ran
  · next builtin =>
    split at ran
    · simp only [run_run_throw] at ran
      obtain ⟨rfl, rfl⟩ := ran
      exact ⟨sound, .refl memo, fun failed => by cases failed⟩
    · next role found =>
      simp only [run_run_bind, run_number, run_remember] at ran
      obtain ⟨rfl, rfl⟩ := ran
      have numbered := NameTable.internAll_lists sound.distinct role.permissions
      have onlyListed := (NameTable.internAll_spec sound.distinct role.permissions).2.2.1
      refine ⟨sound_remember (sound_number sound _) ?_ (Or.inr ⟨builtin, by rw [found]; rfl⟩),
        (extends_number memo _ sound.distinct).trans (extends_remember _ _ _),
        fun _ => ⟨remembers_remember _ _ _, ?_⟩⟩
      · exact numbered.sortNats.congr fun x => (grants_builtin_iff builtin found).symm
      · intro x member
        rcases onlyListed x member with old | listed
        · exact Or.inl old
        · exact Or.inr ((grants_builtin_iff builtin found).mpr listed)
  · split at ran
    · next custom =>
      split at ran
      · simp only [run_run_throw] at ran
        obtain ⟨rfl, rfl⟩ := ran
        exact ⟨sound, .refl memo, fun failed => by cases failed⟩
      · next onPath =>
        split at ran
        · simp only [run_run_throw] at ran
          obtain ⟨rfl, rfl⟩ := ran
          exact ⟨sound, .refl memo, fun failed => by cases failed⟩
        · next role found =>
          split at ran
          · simp only [run_run_throw] at ran
            obtain ⟨rfl, rfl⟩ := ran
            exact ⟨sound, .refl memo, fun failed => by cases failed⟩
          · -- the parents are resolved first, then the role's own permissions are numbered
            simp only [run_run_bind] at ran
            rcases loopRan : (forIn role.parents PUnit.unit fun parent _ => do
                source.visit (name :: path) parent
                pure (ForInStep.yield PUnit.unit)).run.run memo with ⟨loopResult, afterLoop⟩
            obtain ⟨loopSound, loopExtends, loopDone⟩ :=
              forIn_resolves (fun parent _ => ih onPath role found parent) sound loopRan
            rw [loopRan] at ran
            cases loopResult with
            | error e =>
                simp only at ran
                obtain ⟨rfl, rfl⟩ := ran
                exact ⟨loopSound, loopExtends, fun failed => by cases failed⟩
            | ok done =>
                obtain ⟨remembered, loopNumbered⟩ := loopDone rfl
                have stillRemembered : ∀ parent ∈ role.parents,
                    RoleMemo.Remembers { afterLoop with
                      table := (afterLoop.table.internAll role.permissions).2 } parent :=
                  remembered
                simp only [run_number, run_mapM_inherited stillRemembered, run_remember] at ran
                obtain ⟨rfl, rfl⟩ := ran
                have numbered := NameTable.internAll_lists loopSound.distinct role.permissions
                have onlyListed :=
                  (NameTable.internAll_spec loopSound.distinct role.permissions).2.2.1
                have numberedSound := sound_number loopSound role.permissions
                refine ⟨sound_remember numberedSound ?_
                    (Or.inl ⟨custom, mem_customNames_of_customRole? found⟩),
                  (loopExtends.trans (extends_number afterLoop _ loopSound.distinct)).trans
                    (extends_remember _ _ _),
                  fun _ => ⟨remembers_remember _ _ _, ?_⟩⟩
                · exact (numbered.append (lists_inherited numberedSound stillRemembered)).sortNats.congr
                    fun x => (grants_custom_iff custom found).symm
                · intro x member
                  rcases onlyListed x member with old | listed
                  · rcases loopNumbered x old with older | ⟨parent, parentMember, granted⟩
                    · exact Or.inl older
                    · exact Or.inr ((grants_custom_iff custom found).mpr
                        (Or.inr ⟨parent, parentMember, granted⟩))
                  · exact Or.inr ((grants_custom_iff custom found).mpr (Or.inl listed))
    · simp only [run_run_throw] at ran
      obtain ⟨rfl, rfl⟩ := ran
      exact ⟨sound, .refl memo, fun failed => by cases failed⟩

/-- A successful resolution answers with the numbers of exactly the permissions the role grants;
every resolution keeps the memo sound and extends it. -/
theorem resolve_spec (source : RoleSource) (name : String) {memo memo' : RoleMemo}
    {result : Except ExpandError (List Nat)} (sound : memo.Sound source)
    (ran : (source.resolve name).run.run memo = (result, memo')) :
    memo'.Sound source ∧ memo.Extends memo' ∧
      ∀ permissions, result = .ok permissions →
        memo'.table.Lists permissions (source.Grants name) ∧
          (∀ x ∈ memo'.table.names, x ∈ memo.table.names ∨ source.Grants name x) ∧
          RoleKnown source.registry source.customNames name ∧ memo'.Remembers name := by
  unfold resolve at ran
  rw [run_run_bind] at ran
  rcases visitRan : (source.visit [] name).run.run memo with ⟨visited, afterVisit⟩
  obtain ⟨visitSound, visitExtends, visitDone⟩ :=
    visit_resolves source [] name memo visited afterVisit sound visitRan
  rw [visitRan] at ran
  cases visited with
  | error e =>
      obtain ⟨rfl, rfl⟩ := ran
      exact ⟨visitSound, visitExtends, fun _ failed => by cases failed⟩
  | ok done =>
      obtain ⟨remembered, numbered⟩ := visitDone rfl
      obtain ⟨permissions, found⟩ := Option.isSome_iff_exists.mp remembered
      simp only [run_run_bind, run_memoized, found, run_run_pure] at ran
      obtain ⟨rfl, rfl⟩ := ran
      refine ⟨visitSound, visitExtends, fun answer answered => ?_⟩
      cases answered
      exact ⟨visitSound.lists found, numbered, visitSound.known _ (mem_of_lookup_eq_some found),
        remembered⟩

end RoleSource

/-! ## The custom-role extends graph

Resolution reads the custom roles as a graph (`RoleSource.Extends`): a name with the custom
prefix extends the parents of the last custom role of that name, and no other name extends
anything. A name without the prefix is never looked up among the custom roles, whatever they
declare. A role grants what the roles it reaches declare themselves (`RoleSource.Declares`): a
built-in role the permissions the registry lists for it, a custom role its own permissions.
-/

theorem not_custom_of_builtin {name : String} (builtin : name.startsWith builtinRolePrefix = true) :
    name.startsWith customRolePrefix = false := by
  refine Bool.eq_false_iff.mpr fun custom => ?_
  rw [not_builtin_of_custom custom] at builtin
  cases builtin

namespace RoleSource

variable {source : RoleSource}

/-- `parent` is a role that the custom role `child` extends directly, as resolution reads it. -/
def Extends (source : RoleSource) (child parent : String) : Prop :=
  child.startsWith customRolePrefix = true ∧
    ∃ role, source.customRole? child = some role ∧ parent ∈ role.parents

/-- `name` lists `permission` itself: a built-in role as the registry defines it, a custom role
as it is declared. -/
def Declares (source : RoleSource) (name permission : String) : Prop :=
  (name.startsWith builtinRolePrefix = true ∧
      ∃ role, source.registry.role? name = some role ∧ permission ∈ role.permissions) ∨
    (name.startsWith customRolePrefix = true ∧
      ∃ role, source.customRole? name = some role ∧ permission ∈ role.permissions)

/-- A role grants only what some role it reaches declares. -/
theorem Grants.exists_declaring {name permission : String}
    (granted : source.Grants name permission) :
    ∃ declaring, Relation.ReflTransGen source.Extends name declaring ∧
      source.Declares declaring permission := by
  induction granted with
  | builtin builtin found member => exact ⟨_, .refl, .inl ⟨builtin, _, found, member⟩⟩
  | own custom found member => exact ⟨_, .refl, .inr ⟨custom, _, found, member⟩⟩
  | inherited custom found parentMember _ ih =>
      obtain ⟨declaring, reached, declares⟩ := ih
      exact ⟨declaring, .head ⟨custom, _, found, parentMember⟩ reached, declares⟩

end RoleSource

end RealmAccess
