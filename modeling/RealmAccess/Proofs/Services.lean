import Mathlib.Logic.Relation
import RealmAccess.Expansion.Walker
import RealmAccess.Proofs.Graph
import RealmAccess.Proofs.Memo
/-!
# The services that enforce a realm

A service enforces a realm when the realm, or a realm it inherits from directly or through
others, names the service. `RealmGraph.ServicesOf` says what the answer for a realm is: `none`
when no service enforces it, else the services that do, strictly increasing.

The services memo stays sound: each remembered answer is the answer for its realm. A successful
search remembers an answer for the realm searched, so `Walker.services` answers right. Searching
for services never touches the role memo.
-/

namespace RealmAccess

namespace RealmGraph

/-- The realm named `c` is one the realm named `a` inherits from directly. -/
def NameStep (graph : RealmGraph) (a c : String) : Prop :=
  ∃ realm, graph.realm? a = some realm ∧ c ∈ parentNames realm

/-- Service `service` enforces the realm named `name`: a realm it reaches names the service. -/
def Enforces (graph : RealmGraph) (name service : String) : Prop :=
  ∃ reached, Relation.ReflTransGen graph.NameStep name reached ∧
    ∃ realm, graph.realm? reached = some realm ∧ service ∈ realm.enforceInService

/-- The services answer for a realm: `none` when no service enforces it, else the services
that do, strictly increasing. -/
def ServicesOf (graph : RealmGraph) (name : String) : Option (List String) → Prop
  | none => ∀ service, ¬ graph.Enforces name service
  | some services => services ≠ [] ∧ services.SortedLT ∧
      ∀ service, service ∈ services ↔ graph.Enforces name service

variable {graph : RealmGraph}

theorem enforces_iff {name service : String} {realm : Realm}
    (found : graph.realm? name = some realm) :
    graph.Enforces name service ↔
      service ∈ realm.enforceInService ∨ ∃ parent ∈ parentNames realm, graph.Enforces parent service := by
  constructor
  · rintro ⟨reached, reach, realm', found', named⟩
    rcases Relation.ReflTransGen.cases_head reach with same | ⟨c, ⟨realm'', found'', cMember⟩, later⟩
    · rw [← same, found] at found'
      cases found'
      exact Or.inl named
    · rw [found] at found''
      cases found''
      exact Or.inr ⟨c, cMember, reached, later, realm', found', named⟩
  · rintro (own | ⟨parent, parentMember, reached, reach, realm', found', named⟩)
    · exact ⟨name, .refl, realm, found, own⟩
    · exact ⟨reached, .head ⟨realm, found, parentMember⟩ reach, realm', found', named⟩

/-- One realm has one answer for its services. -/
theorem servicesOf_unique {name : String}
    {services services' : Option (List String)} (first : graph.ServicesOf name services)
    (second : graph.ServicesOf name services') : services = services' := by
  cases services with
  | none =>
    cases services' with
    | none => rfl
    | some found =>
      obtain ⟨nonempty, -, members⟩ := second
      obtain ⟨service, listed⟩ := List.exists_mem_of_ne_nil found nonempty
      exact absurd ((members service).mp listed) (first service)
  | some found =>
    cases services' with
    | none =>
      obtain ⟨nonempty, -, members⟩ := first
      obtain ⟨service, listed⟩ := List.exists_mem_of_ne_nil found nonempty
      exact absurd ((members service).mp listed) (second service)
    | some found' =>
      obtain ⟨-, sorted, members⟩ := first
      obtain ⟨-, sorted', members'⟩ := second
      have sameMembers : ∀ service, service ∈ found ↔ service ∈ found' := fun service =>
        (members service).trans (members' service).symm
      rw [sorted.eq_of_mem_iff sorted' sameMembers]

/-- The answer made from a realm's own services and the services its parents are enforced by. -/
theorem servicesOf_sortStrings {name : String} {realm : Realm} {inherited : List String}
    (found : graph.realm? name = some realm)
    (fromParents : ∀ service, service ∈ inherited ↔
      ∃ parent ∈ parentNames realm, graph.Enforces parent service) :
    graph.ServicesOf name
      (if (Order.sortStrings (realm.enforceInService ++ inherited)).isEmpty then none
        else some (Order.sortStrings (realm.enforceInService ++ inherited))) := by
  have members : ∀ service,
      service ∈ Order.sortStrings (realm.enforceInService ++ inherited) ↔
        graph.Enforces name service := by
    intro service
    rw [Order.mem_sortStrings, List.mem_append, fromParents, enforces_iff found]
  split
  · next empty =>
      intro service enforced
      rw [List.isEmpty_iff] at empty
      have member := (members service).mpr enforced
      rw [empty] at member
      cases member
  · next nonempty =>
      refine ⟨fun empty => ?_, Order.sortStrings_sortedLT _, members⟩
      rw [empty] at nonempty
      exact nonempty rfl

end RealmGraph

namespace Walker

variable {walker : Walker}

/-- A services memo whose every entry is the answer for its realm. -/
def ServicesSound (graph : RealmGraph) (memo : WalkMemo) : Prop :=
  ∀ entry ∈ memo.services, graph.ServicesOf entry.1 entry.2

/-- What a search for the services of `name` does: it leaves the role memo alone, keeps the
services memo sound and only adds to it, and on success remembers an answer for `name`. -/
def FindsServices (walker : Walker) (name : String) (step : WalkM Unit) : Prop :=
  ∀ memo result memo', ServicesSound walker.graph memo → step.run.run memo = (result, memo') →
    memo'.roles = memo.roles ∧ ServicesSound walker.graph memo' ∧
      memo.services <:+ memo'.services ∧ (result = .ok () → (memo'.services.lookup name).isSome)

theorem run_knownServices (name : String) (memo : WalkMemo) :
    (knownServices name).run.run memo = (.ok (memo.services.lookup name), memo) := rfl

theorem lookup_isSome_of_suffix {old new : List (String × Option (List String))} {name : String}
    (grown : old <:+ new) (known : (old.lookup name).isSome) : (new.lookup name).isSome := by
  obtain ⟨answer, found⟩ := Option.isSome_iff_exists.mp known
  exact lookup_isSome_of_mem (grown.subset (mem_of_lookup_eq_some found))

theorem ServicesSound.lookup {memo : WalkMemo} (sound : ServicesSound walker.graph memo)
    {name : String} {answer : Option (List String)}
    (found : memo.services.lookup name = some answer) : walker.graph.ServicesOf name answer :=
  sound (name, answer) (mem_of_lookup_eq_some found)

theorem forIn_findsServices {step : String → WalkM Unit} {parents : List String}
    (each : ∀ parent ∈ parents, walker.FindsServices parent (step parent))
    {memo memo' : WalkMemo} {result : Except ExpandError PUnit}
    (sound : ServicesSound walker.graph memo)
    (ran : (forIn parents PUnit.unit fun parent _ => do
        step parent
        pure (ForInStep.yield PUnit.unit)).run.run memo = (result, memo')) :
    memo'.roles = memo.roles ∧ ServicesSound walker.graph memo' ∧
      memo.services <:+ memo'.services ∧
        (result = .ok () → ∀ parent ∈ parents, (memo'.services.lookup parent).isSome) := by
  induction parents generalizing memo with
  | nil =>
      simp only [List.forIn_nil, run_run_pure, Prod.mk.injEq] at ran
      obtain ⟨rfl, rfl⟩ := ran
      exact ⟨rfl, sound, List.suffix_refl _, fun _ _ member => by cases member⟩
  | cons parent more ih =>
      simp only [List.forIn_cons, run_run_bind] at ran
      rcases stepRan : (step parent).run.run memo with ⟨first, middle⟩
      obtain ⟨middleRoles, middleSound, middleGrown, middleDone⟩ :=
        each parent List.mem_cons_self memo first middle sound stepRan
      rw [stepRan] at ran
      cases first with
      | error e =>
          simp only [Prod.mk.injEq] at ran
          obtain ⟨rfl, rfl⟩ := ran
          exact ⟨middleRoles, middleSound, middleGrown, fun failed => by cases failed⟩
      | ok done =>
          simp only [run_run_pure] at ran
          obtain ⟨laterRoles, laterSound, laterGrown, laterDone⟩ :=
            ih (fun other member => each other (List.mem_cons_of_mem parent member)) middleSound ran
          refine ⟨laterRoles.trans middleRoles, laterSound, middleGrown.trans laterGrown,
            fun succeeded other member => ?_⟩
          rcases List.mem_cons.mp member with rfl | later
          · exact lookup_isSome_of_suffix laterGrown (middleDone rfl)
          · exact laterDone succeeded other later

/-- The services of what a realm's parents are enforced by, read from a sound memo that
remembers every parent. -/
theorem mem_inherited {memo : WalkMemo} (sound : ServicesSound walker.graph memo)
    {parents : List String} (remembered : ∀ parent ∈ parents, (memo.services.lookup parent).isSome)
    (service : String) :
    service ∈ parents.flatMap (fun parent =>
        match memo.services.lookup parent with
        | some (some services) => services
        | _ => []) ↔
      ∃ parent ∈ parents, walker.graph.Enforces parent service := by
  rw [List.mem_flatMap]
  constructor
  · rintro ⟨parent, parentMember, listed⟩
    obtain ⟨answer, found⟩ := Option.isSome_iff_exists.mp (remembered parent parentMember)
    have answered := sound.lookup found
    rw [found] at listed
    cases answer with
    | none => cases listed
    | some services => exact ⟨parent, parentMember, (answered.2.2 service).mp listed⟩
  · rintro ⟨parent, parentMember, enforced⟩
    obtain ⟨answer, found⟩ := Option.isSome_iff_exists.mp (remembered parent parentMember)
    have answered := sound.lookup found
    refine ⟨parent, parentMember, ?_⟩
    rw [found]
    cases answer with
    | none => exact absurd enforced (answered service)
    | some services => exact (answered.2.2 service).mpr enforced

/-- Every search for services does what `FindsServices` says. -/
theorem visitServices_finds (walker : Walker) (path : List String) (name : String) :
    walker.FindsServices name (walker.visitServices path name) := by
  induction path, name using visitServices.induct walker with
  | case1 path name ih =>
  intro memo result memo' sound ran
  rw [visitServices] at ran
  simp only [run_run_bind, run_knownServices] at ran
  by_cases known : (memo.services.lookup name).isSome
  · -- an answer is remembered already
    simp only [known, if_true, run_run_pure] at ran
    obtain ⟨rfl, rfl⟩ := ran
    exact ⟨rfl, sound, List.suffix_refl _, fun _ => known⟩
  simp only [known, Bool.false_eq_true, ↓reduceIte] at ran
  split at ran
  · simp only [run_run_throw] at ran
    obtain ⟨rfl, rfl⟩ := ran
    exact ⟨rfl, sound, List.suffix_refl _, fun failed => by cases failed⟩
  · next realm found =>
    split at ran
    · simp only [run_run_throw] at ran
      obtain ⟨rfl, rfl⟩ := ran
      exact ⟨rfl, sound, List.suffix_refl _, fun failed => by cases failed⟩
    · split at ran
      · simp only [run_run_throw] at ran
        obtain ⟨rfl, rfl⟩ := ran
        exact ⟨rfl, sound, List.suffix_refl _, fun failed => by cases failed⟩
      · next onPath =>
        -- the parents are searched first, then the realm's answer is remembered
        simp only [run_run_bind] at ran
        rcases loopRan : (forIn (RealmGraph.parentNames realm) PUnit.unit fun parent _ => do
            walker.visitServices (name :: path) parent
            pure (ForInStep.yield PUnit.unit)).run.run memo with ⟨loopResult, afterLoop⟩
        obtain ⟨loopRoles, loopSound, loopGrown, loopDone⟩ :=
          forIn_findsServices (fun parent _ => ih realm found onPath parent) sound loopRan
        rw [loopRan] at ran
        cases loopResult with
        | error e =>
            simp only at ran
            obtain ⟨rfl, rfl⟩ := ran
            exact ⟨loopRoles, loopSound, loopGrown, fun failed => by cases failed⟩
        | ok done =>
            simp only [run_run_get, run_run_modify] at ran
            obtain ⟨rfl, rfl⟩ := ran
            have answered := RealmGraph.servicesOf_sortStrings found
              (mem_inherited loopSound (loopDone rfl))
            refine ⟨loopRoles, ?_, loopGrown.trans (List.suffix_cons _ _), fun _ => ?_⟩
            · intro entry member
              rcases List.mem_cons.mp member with rfl | old
              · exact answered
              · exact loopSound entry old
            · simp

/-- The services that `Walker.services` answers are the services that enforce the realm. -/
theorem services_spec (walker : Walker) (name : String) {memo memo' : WalkMemo}
    {result : Except ExpandError (Option (List String))} (sound : ServicesSound walker.graph memo)
    (ran : (walker.services name).run.run memo = (result, memo')) :
    memo'.roles = memo.roles ∧ ServicesSound walker.graph memo' ∧
      ∀ answer, result = .ok answer → walker.graph.ServicesOf name answer := by
  unfold services at ran
  split at ran
  · simp only [run_run_bind, run_run_throw] at ran
    obtain ⟨rfl, rfl⟩ := ran
    exact ⟨rfl, sound, fun _ failed => by cases failed⟩
  · simp only [run_run_bind] at ran
    rcases visitRan : (walker.visitServices [] name).run.run memo with ⟨visited, afterVisit⟩
    obtain ⟨visitRoles, visitSound, -, visitDone⟩ :=
      visitServices_finds walker [] name memo visited afterVisit sound visitRan
    rw [visitRan] at ran
    cases visited with
    | error e =>
        obtain ⟨rfl, rfl⟩ := ran
        exact ⟨visitRoles, visitSound, fun _ failed => by cases failed⟩
    | ok done =>
        obtain ⟨answer, found⟩ := Option.isSome_iff_exists.mp (visitDone rfl)
        simp only [run_knownServices, found, Option.getD_some] at ran
        obtain ⟨rfl, rfl⟩ := ran
        refine ⟨visitRoles, visitSound, fun given answeredWith => ?_⟩
        cases answeredWith
        exact visitSound.lookup found

end Walker

end RealmAccess
