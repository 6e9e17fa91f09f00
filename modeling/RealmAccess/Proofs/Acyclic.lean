import RealmAccess.Validation
import Mathlib.Logic.Relation
import Mathlib.Data.List.Nodup
/-!
# A search that finds no cycle

When `Inheritance.findCycle` finds no cycle from the names of an order that lists every name
with parents, the parent relation is well founded: no name reaches itself by stepping to
parents (`Inheritance.not_transGen_self`). Conversely, the search finds no cycle from names
that reach none (`Inheritance.findCycleFrom_eq_none_of_free`), so the search is exact
(`Inheritance.findCycle_eq_none_iff`).

The first direction keeps one invariant: every finished name is accessible, since each one is
finished only after all its parents are. The second keeps another down the path: each parent
searched is an ancestor of every name on the path, so meeting one again would close a cycle
that the names searched from reach.
-/

namespace RealmAccess

theorem Acc.not_rel_self {α : Sort _} {r : α → α → Prop} {a : α} (accessible : Acc r a) :
    ¬ r a a := by
  induction accessible with
  | intro x _ ih => exact fun looped => ih x looped looped

namespace Inheritance

/-- `parent` is listed as a parent of `child`. -/
def ParentOf (graph : Inheritance) (parent child : String) : Prop :=
  parent ∈ graph.parentsOf child

variable {graph : Inheritance}

theorem parentsOf_eq_nil_of_not_key {name : String} (absent : name ∉ graph.map (·.1)) :
    graph.parentsOf name = [] := by
  unfold parentsOf
  split
  · next entry found =>
      have member : entry ∈ graph := List.mem_reverse.mp (List.mem_of_find?_eq_some found)
      have selected := List.find?_some found
      have named : entry.1 = name := beq_iff_eq.mp selected
      exact absurd (List.mem_map.mpr ⟨entry, member, named⟩) absent
  · rfl

theorem parentsOf_eq_nil_of_not_mem_names {name : String} (absent : name ∉ graph.names) :
    graph.parentsOf name = [] := by
  apply parentsOf_eq_nil_of_not_key
  intro present
  obtain ⟨entry, member, rfl⟩ := List.mem_map.mp present
  exact absent (List.mem_flatMap.mpr ⟨entry, member, List.mem_cons_self⟩)

/-- With distinct names, the parents of a name are those of its one entry. -/
theorem parentOf_iff (distinct : (graph.map (·.1)).Nodup) {parent child : String} :
    graph.ParentOf parent child ↔ ∃ entry ∈ graph, entry.1 = child ∧ parent ∈ entry.2 := by
  unfold ParentOf parentsOf
  split
  · next found foundEq =>
      have member : found ∈ graph := List.mem_reverse.mp (List.mem_of_find?_eq_some foundEq)
      have selected := List.find?_some foundEq
      have named : found.1 = child := beq_iff_eq.mp selected
      constructor
      · intro listed
        exact ⟨found, member, named, listed⟩
      · rintro ⟨entry, entryMember, entryNamed, listed⟩
        have same : entry = found :=
          List.inj_on_of_nodup_map distinct entryMember member (entryNamed.trans named.symm)
        rw [← same]
        exact listed
  · next missing =>
      constructor
      · intro listed
        cases listed
      · rintro ⟨entry, entryMember, entryNamed, -⟩
        have unselected := List.find?_eq_none.mp missing entry (List.mem_reverse.mpr entryMember)
        simp [entryNamed] at unselected

theorem acc_of_parents_acc {name : String}
    (parents : ∀ parent ∈ graph.parentsOf name, Acc graph.ParentOf parent) :
    Acc graph.ParentOf name :=
  Acc.intro name fun parent listed => parents parent listed

/-- A search from the parents of a path's innermost name that ends without a cycle finishes
each of them, keeps every name finished before, and finishes only accessible names. -/
theorem visitParents_acc (path parents done : List String) {finished : List String}
    (accessible : ∀ name ∈ done, Acc graph.ParentOf name)
    (searched : graph.visitParents path parents done = .ok finished) :
    (∀ name ∈ finished, Acc graph.ParentOf name) ∧ (∀ parent ∈ parents, parent ∈ finished) ∧
      done ⊆ finished := by
  induction path, parents, done using visitParents.induct graph generalizing finished with
  | case1 path done =>
      rw [visitParents] at searched
      cases searched
      exact ⟨accessible, fun _ listed => (nomatch listed), fun _ member => member⟩
  | case2 path parent more done onPath =>
      rw [visitParents] at searched
      simp only [onPath, if_true] at searched
      cases searched
  | case3 path parent more done notOnPath isDone ih =>
      rw [visitParents] at searched
      simp only [notOnPath, isDone, if_false, if_true] at searched
      obtain ⟨finishedAccessible, moreFinished, kept⟩ := ih accessible searched
      refine ⟨finishedAccessible, fun listed member => ?_, kept⟩
      rcases List.mem_cons.mp member with rfl | later
      · exact kept isDone
      · exact moreFinished listed later
  | case4 path parent more done notOnPath notDone known cycle failed _ =>
      rw [visitParents] at searched
      simp only [notOnPath, notDone, known, if_false, dite_true, failed] at searched
      cases searched
  | case5 path parent more done notOnPath notDone known inner innerSearched innerIh ih =>
      rw [visitParents] at searched
      simp only [notOnPath, notDone, known, if_false, dite_true, innerSearched] at searched
      obtain ⟨innerAccessible, parentsFinished, innerKept⟩ := innerIh accessible innerSearched
      -- the parent is finished after all its own parents are
      have parentAccessible : Acc graph.ParentOf parent :=
        acc_of_parents_acc fun grandparent listed =>
          innerAccessible grandparent (parentsFinished grandparent listed)
      have nowAccessible : ∀ name ∈ parent :: inner, Acc graph.ParentOf name := by
        intro name member
        rcases List.mem_cons.mp member with rfl | later
        · exact parentAccessible
        · exact innerAccessible name later
      obtain ⟨finishedAccessible, moreFinished, kept⟩ := ih nowAccessible searched
      refine ⟨finishedAccessible, fun listed member => ?_,
        fun name member => kept (List.mem_cons_of_mem parent (innerKept member))⟩
      rcases List.mem_cons.mp member with rfl | later
      · exact kept List.mem_cons_self
      · exact moreFinished listed later
  | case6 path parent more done notOnPath notDone unknown ih =>
      rw [visitParents] at searched
      simp only [notOnPath, notDone, unknown, if_false, dite_false] at searched
      -- a name the map does not mention has no parents
      have parentAccessible : Acc graph.ParentOf parent := by
        apply acc_of_parents_acc
        rw [parentsOf_eq_nil_of_not_mem_names unknown]
        intro _ listed
        cases listed
      have nowAccessible : ∀ name ∈ parent :: done, Acc graph.ParentOf name := by
        intro name member
        rcases List.mem_cons.mp member with rfl | later
        · exact parentAccessible
        · exact accessible name later
      obtain ⟨finishedAccessible, moreFinished, kept⟩ := ih nowAccessible searched
      refine ⟨finishedAccessible, fun listed member => ?_,
        fun name member => kept (List.mem_cons_of_mem parent member)⟩
      rcases List.mem_cons.mp member with rfl | later
      · exact kept List.mem_cons_self
      · exact moreFinished listed later

theorem findCycleFrom_acc (order done : List String)
    (accessible : ∀ name ∈ done, Acc graph.ParentOf name)
    (none : graph.findCycleFrom order done = none) : ∀ name ∈ order, Acc graph.ParentOf name := by
  induction order, done using findCycleFrom.induct graph with
  | case1 done =>
      intro _ member
      cases member
  | case2 start more done isDone ih =>
      rw [findCycleFrom, if_pos isDone] at none
      intro name member
      rcases List.mem_cons.mp member with rfl | later
      · exact accessible name isDone
      · exact ih accessible none name later
  | case3 start more done notDone cycle failed =>
      rw [findCycleFrom, if_neg notDone, failed] at none
      cases none
  | case4 start more done notDone finished searched ih =>
      rw [findCycleFrom, if_neg notDone, searched] at none
      obtain ⟨finishedAccessible, parentsFinished, -⟩ :=
        visitParents_acc [start] (graph.parentsOf start) done accessible searched
      have startAccessible : Acc graph.ParentOf start :=
        acc_of_parents_acc fun parent listed => finishedAccessible parent (parentsFinished parent listed)
      have nowAccessible : ∀ name ∈ start :: finished, Acc graph.ParentOf name := by
        intro name member
        rcases List.mem_cons.mp member with rfl | later
        · exact startAccessible
        · exact finishedAccessible name later
      intro name member
      rcases List.mem_cons.mp member with rfl | later
      · exact startAccessible
      · exact ih nowAccessible none name later

/-- A search from an order that lists every name with parents, finding no cycle, shows the
parent relation well founded. -/
theorem wellFounded_of_findCycle {order : List String} (none : graph.findCycle order = none)
    (listed : ∀ entry ∈ graph, entry.1 ∈ order) : WellFounded graph.ParentOf := by
  have ordered := findCycleFrom_acc order [] (fun _ member => (nomatch member)) none
  refine ⟨fun name => ?_⟩
  by_cases inOrder : name ∈ order
  · exact ordered name inOrder
  · -- a name outside the order has no entry, so no parents
    apply acc_of_parents_acc
    have absent : name ∉ graph.map (·.1) := by
      intro present
      obtain ⟨entry, member, rfl⟩ := List.mem_map.mp present
      exact inOrder (listed entry member)
    rw [parentsOf_eq_nil_of_not_key absent]
    intro _ member
    cases member

theorem not_transGen_self (founded : WellFounded graph.ParentOf) (name : String) :
    ¬ Relation.TransGen graph.ParentOf name name :=
  Acc.not_rel_self (founded.apply name).transGen

/-! ### No cycle is found where none can be reached -/

/-- Some name that `start` inherits from, or `start` itself, inherits from itself. -/
def ReachesCycle (graph : Inheritance) (start : String) : Prop :=
  ∃ name, Relation.ReflTransGen graph.ParentOf name start ∧
    Relation.TransGen graph.ParentOf name name

theorem ReachesCycle.of_parent {parent child : String} (listed : graph.ParentOf parent child)
    (reaches : graph.ReachesCycle parent) : graph.ReachesCycle child := by
  obtain ⟨name, reach, loop⟩ := reaches
  exact ⟨name, reach.tail listed, loop⟩

/-- A search from parents that reach no cycle, and are ancestors of every name on the path, ends
without a cycle. -/
theorem visitParents_ok (path parents done : List String)
    (free : ∀ parent ∈ parents, ¬ graph.ReachesCycle parent)
    (below : ∀ parent ∈ parents, ∀ p ∈ path, Relation.TransGen graph.ParentOf parent p) :
    ∃ finished, graph.visitParents path parents done = .ok finished := by
  induction path, parents, done using visitParents.induct graph with
  | case1 path done => exact ⟨done, by rw [visitParents]⟩
  | case2 path parent more done onPath =>
      -- meeting the parent on the path again would close a cycle through it
      have loop := below parent List.mem_cons_self parent onPath
      exact absurd ⟨parent, .refl, loop⟩ (free parent List.mem_cons_self)
  | case3 path parent more done notOnPath isDone ih =>
      rw [visitParents]
      simp only [notOnPath, isDone, if_false, if_true]
      exact ih (fun listed member => free listed (List.mem_cons_of_mem parent member))
        fun listed member => below listed (List.mem_cons_of_mem parent member)
  | case4 path parent more done notOnPath notDone known cycle failed innerIh =>
      have innerFree : ∀ grandparent ∈ graph.parentsOf parent, ¬ graph.ReachesCycle grandparent :=
        fun grandparent listed reaches =>
          free parent List.mem_cons_self (reaches.of_parent listed)
      -- the parent's own parents are ancestors of the parent and of the whole path
      have innerBelow : ∀ grandparent ∈ graph.parentsOf parent, ∀ p ∈ parent :: path,
          Relation.TransGen graph.ParentOf grandparent p := by
        intro grandparent listed p onPath
        rcases List.mem_cons.mp onPath with rfl | later
        · exact .single listed
        · exact .head listed (below parent List.mem_cons_self p later)
      obtain ⟨finished, searched⟩ := innerIh innerFree innerBelow
      rw [searched] at failed
      cases failed
  | case5 path parent more done notOnPath notDone known inner innerSearched innerIh ih =>
      rw [visitParents]
      simp only [notOnPath, notDone, known, if_false, dite_true, innerSearched]
      exact ih (fun listed member => free listed (List.mem_cons_of_mem parent member))
        fun listed member => below listed (List.mem_cons_of_mem parent member)
  | case6 path parent more done notOnPath notDone unknown ih =>
      rw [visitParents]
      simp only [notOnPath, notDone, unknown, if_false, dite_false]
      exact ih (fun listed member => free listed (List.mem_cons_of_mem parent member))
        fun listed member => below listed (List.mem_cons_of_mem parent member)

/-- A search from names that reach no cycle finds none. -/
theorem findCycleFrom_eq_none_of_free (order done : List String)
    (free : ∀ start ∈ order, ¬ graph.ReachesCycle start) :
    graph.findCycleFrom order done = none := by
  induction order, done using findCycleFrom.induct graph with
  | case1 done => rw [findCycleFrom]
  | case2 start more done isDone ih =>
      rw [findCycleFrom, if_pos isDone]
      exact ih fun name member => free name (List.mem_cons_of_mem start member)
  | case3 start more done notDone cycle failed =>
      have startFree := free start List.mem_cons_self
      have parentsFree : ∀ parent ∈ graph.parentsOf start, ¬ graph.ReachesCycle parent :=
        fun parent listed reaches => startFree (reaches.of_parent listed)
      have below : ∀ parent ∈ graph.parentsOf start, ∀ p ∈ [start],
          Relation.TransGen graph.ParentOf parent p := by
        intro parent listed p onPath
        rw [List.mem_singleton.mp onPath]
        exact .single listed
      obtain ⟨finished, searched⟩ :=
        visitParents_ok [start] (graph.parentsOf start) done parentsFree below
      rw [searched] at failed
      cases failed
  | case4 start more done notDone finished searched ih =>
      rw [findCycleFrom, if_neg notDone, searched]
      exact ih fun name member => free name (List.mem_cons_of_mem start member)

theorem findCycleFrom_eq_none (acyclic : ∀ name, ¬ Relation.TransGen graph.ParentOf name name)
    (order done : List String) : graph.findCycleFrom order done = none :=
  findCycleFrom_eq_none_of_free order done fun _ _ ⟨name, _, loop⟩ => acyclic name loop

/-- The search finds no cycle exactly when no name reaches itself, given an order that lists
every name with parents. -/
theorem findCycle_eq_none_iff {order : List String} (listed : ∀ entry ∈ graph, entry.1 ∈ order) :
    graph.findCycle order = none ↔ ∀ name, ¬ Relation.TransGen graph.ParentOf name name :=
  ⟨fun none => not_transGen_self (wellFounded_of_findCycle none listed),
    fun acyclic => findCycleFrom_eq_none acyclic order []⟩

end Inheritance

end RealmAccess
