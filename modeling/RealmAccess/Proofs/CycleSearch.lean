import Mathlib.Data.List.Chain
import Mathlib.Data.List.TakeWhile
import RealmAccess.Proofs.Acyclic
import RealmAccess.Proofs.Memo
/-!
# The cycle search is exact

`Inheritance.findCycle` searches depth first from each name of an order, remembering the names
it has finished across starts. It reports a cycle exactly when some name reached from the order
by stepping to parents inherits from itself, and what it reports is a cycle of the map: distinct
names, each followed by one of its parents, closed by the first name again
(`Inheritance.findCycle_reports_exactly_reachable_cycles`).

Finding no cycle makes every name of the order accessible (`findCycleFrom_acc`), and an
accessible name reaches no cycle. Conversely a search from names that reach no cycle ends
without one (`findCycleFrom_eq_none_of_free`). The reported cycle is read off the search path:
down the path each name is a parent of the one before it and no name stands twice, and the name
met again is on the path and a parent of the innermost name.
-/

namespace RealmAccess.Inheritance

variable {graph : Inheritance}

/-- `cycle` is `v₀, …, vₖ, v₀`, where `v₀, …, vₖ` are distinct and each name is followed by one
of its parents. -/
def IsCycle (graph : Inheritance) (cycle : List String) : Prop :=
  ∃ first loop, cycle = first :: loop ++ [first] ∧ (first :: loop).Nodup ∧
    cycle.IsChain fun name next => graph.ParentOf next name

/-! ### Accessible names reach no cycle -/

theorem acc_of_reflTransGen {name start : String}
    (reach : Relation.ReflTransGen graph.ParentOf name start)
    (accessible : Acc graph.ParentOf start) : Acc graph.ParentOf name := by
  induction reach with
  | refl => exact accessible
  | tail _ step ih => exact ih (accessible.inv step)

theorem not_reachesCycle_of_acc {start : String} (accessible : Acc graph.ParentOf start) :
    ¬ graph.ReachesCycle start := by
  rintro ⟨name, reach, loop⟩
  exact Acc.not_rel_self (acc_of_reflTransGen reach accessible).transGen loop

/-- The search finds no cycle exactly when no name of the order reaches one. -/
theorem findCycle_eq_none_iff_free (order : List String) :
    graph.findCycle order = none ↔ ∀ start ∈ order, ¬ graph.ReachesCycle start := by
  constructor
  · intro none start member
    have accessible := findCycleFrom_acc order [] (fun _ finished => (nomatch finished)) none
    exact not_reachesCycle_of_acc (accessible start member)
  · exact findCycleFrom_eq_none_of_free order []

/-! ### The reported cycle -/

/-- Meeting again a name of the path, from the innermost name of a path of distinct names each a
parent of the one after it, closes a cycle. -/
theorem isCycle_cycleAt {path : List String} {parent : String} (distinct : path.Nodup)
    (linked : path.IsChain fun name next => graph.ParentOf name next) (onPath : parent ∈ path)
    (listed : ∀ top ∈ path.head?, graph.ParentOf parent top) :
    graph.IsCycle (cycleAt path parent) := by
  let upper := path.takeWhile (· ≠ parent)
  have parentNotUpper : parent ∉ upper := fun member => by
    simpa using List.mem_takeWhile_imp member
  -- the path runs from its innermost name down to the parent met again, then further out
  obtain ⟨below, splitPath⟩ : ∃ below, path = upper ++ parent :: below := by
    have nonempty : path.dropWhile (· ≠ parent) ≠ [] := by
      rw [Ne, List.dropWhile_eq_nil_iff]
      exact fun everywhere => by simpa using everywhere parent onPath
    obtain ⟨met, below, dropped⟩ := List.exists_cons_of_ne_nil nonempty
    exact ⟨below, (dropWhile_ne_eq_cons dropped).2⟩
  have prefixPath : upper ++ [parent] <+: path := ⟨below, by rw [splitPath]; simp⟩
  have sameTop : (upper ++ [parent]).head? = path.head? := by
    rw [splitPath]
    cases upper <;> rfl
  refine ⟨parent, upper.reverse, by simp [cycleAt, upper], ?_, ?_⟩
  · exact List.nodup_cons.mpr ⟨by simpa using parentNotUpper,
      List.nodup_reverse.mpr (distinct.sublist (List.takeWhile_sublist _))⟩
  · have reversed : (cycleAt path parent) = (upper ++ [parent]).reverse ++ [parent] := rfl
    rw [reversed, List.isChain_append]
    have upperLinked := List.IsChain.prefix linked prefixPath
    refine ⟨List.isChain_reverse.mpr upperLinked, List.isChain_singleton parent, ?_⟩
    intro top isTop next isNext
    rw [List.getLast?_reverse, sameTop] at isTop
    rw [List.head?_cons, Option.mem_some_iff] at isNext
    rw [← isNext]
    exact listed top isTop

/-- A search that closes a cycle, from a path of distinct names each a parent of the one after
it, whose parents to visit are parents of the innermost name, reports a cycle of the map. -/
theorem visitParents_isCycle (path parents done : List String) {cycle : List String}
    (distinct : path.Nodup) (linked : path.IsChain fun name next => graph.ParentOf name next)
    (listed : ∀ parent ∈ parents, ∀ top ∈ path.head?, graph.ParentOf parent top)
    (closed : graph.visitParents path parents done = .error cycle) : graph.IsCycle cycle := by
  induction path, parents, done using visitParents.induct graph with
  | case1 path done =>
      rw [visitParents] at closed
      cases closed
  | case2 path parent more done onPath =>
      rw [visitParents, if_pos onPath] at closed
      cases closed
      exact isCycle_cycleAt distinct linked onPath (listed parent List.mem_cons_self)
  | case3 path parent more done notOnPath isDone ih =>
      rw [visitParents] at closed
      simp only [notOnPath, isDone, if_false, if_true] at closed
      exact ih distinct linked (fun later member => listed later (List.mem_cons_of_mem _ member))
        closed
  | case4 path parent more done notOnPath notDone known inner failed innerIh =>
      rw [visitParents] at closed
      simp only [notOnPath, notDone, known, if_false, dite_true, failed] at closed
      cases closed
      -- one step deeper: the parent goes onto the path, its own parents are to be visited
      have innerLinked : (parent :: path).IsChain fun name next => graph.ParentOf name next :=
        List.isChain_cons.mpr ⟨listed parent List.mem_cons_self, linked⟩
      have innerListed : ∀ grandparent ∈ graph.parentsOf parent,
          ∀ top ∈ (parent :: path).head?, graph.ParentOf grandparent top := by
        intro grandparent isGrandparent top isTop
        rw [List.head?_cons, Option.mem_some_iff] at isTop
        rw [← isTop]
        exact isGrandparent
      exact innerIh (List.nodup_cons.mpr ⟨notOnPath, distinct⟩) innerLinked innerListed failed
  | case5 path parent more done notOnPath notDone known inner innerSearched innerIh ih =>
      rw [visitParents] at closed
      simp only [notOnPath, notDone, known, if_false, dite_true, innerSearched] at closed
      exact ih distinct linked (fun later member => listed later (List.mem_cons_of_mem _ member))
        closed
  | case6 path parent more done notOnPath notDone unknown ih =>
      rw [visitParents] at closed
      simp only [notOnPath, notDone, unknown, if_false, dite_false] at closed
      exact ih distinct linked (fun later member => listed later (List.mem_cons_of_mem _ member))
        closed

theorem findCycleFrom_isCycle (order done : List String) {cycle : List String}
    (found : graph.findCycleFrom order done = some cycle) : graph.IsCycle cycle := by
  induction order, done using findCycleFrom.induct graph with
  | case1 done =>
      rw [findCycleFrom] at found
      cases found
  | case2 start more done isDone ih =>
      rw [findCycleFrom, if_pos isDone] at found
      exact ih found
  | case3 start more done notDone inner failed =>
      rw [findCycleFrom, if_neg notDone, failed] at found
      cases found
      have listed : ∀ parent ∈ graph.parentsOf start, ∀ top ∈ [start].head?,
          graph.ParentOf parent top := by
        intro parent isParent top isTop
        rw [List.head?_cons, Option.mem_some_iff] at isTop
        rw [← isTop]
        exact isParent
      exact visitParents_isCycle [start] _ done (List.nodup_singleton start)
        (List.isChain_singleton start) listed failed
  | case4 start more done notDone finished searched ih =>
      rw [findCycleFrom, if_neg notDone, searched] at found
      exact ih found

/-- The search reports a cycle exactly when a cycle can be reached from a name of the order, and
what it reports is a cycle of the map. -/
theorem findCycle_reports_exactly_reachable_cycles (graph : Inheritance) (order : List String) :
    ((∃ cycle, graph.findCycle order = some cycle) ↔
        ∃ start ∈ order, graph.ReachesCycle start) ∧
      ∀ cycle, graph.findCycle order = some cycle → graph.IsCycle cycle := by
  refine ⟨⟨?_, ?_⟩, fun cycle found => findCycleFrom_isCycle order [] found⟩
  · rintro ⟨cycle, found⟩
    by_contra unreachable
    have none := (findCycle_eq_none_iff_free order).mpr
      fun start member reaches => unreachable ⟨start, member, reaches⟩
    rw [none] at found
    cases found
  · rintro ⟨start, member, reaches⟩
    cases searched : graph.findCycle order with
    | some cycle => exact ⟨cycle, rfl⟩
    | none => exact absurd reaches ((findCycle_eq_none_iff_free order).mp searched start member)

end RealmAccess.Inheritance
