import Mathlib.Data.List.Sort
import Mathlib.Data.List.Lex
import Mathlib.Data.String.Basic
import RealmAccess.Expansion.Numbering
/-!
# Sorted lists without repeats: what they hold

`Order.sortDistinct` keeps the members of its input and returns them strictly increasing, and a
strictly increasing list is fixed by its members, so the result depends only on which elements
the input holds. A list sorted by a key that no two elements share is strictly increasing in
that key. `Order.compareLex` is the comparison of the lexicographic order on lists, a proper
prefix first.

`Order.relabel` writes positions at numbers one after another: a number written once holds its
position, a number never written keeps what it held, and every value is a position.

A number cut to 32 bits keeps its value below `2 ^ 32` and never grows.
-/

namespace RealmAccess.Order

variable {α β : Type}

theorem mem_dropRepeats [DecidableEq α] {items : List α} {x : α} :
    x ∈ dropRepeats items ↔ x ∈ items := by
  fun_induction dropRepeats items with
  | case1 => rfl
  | case2 a => rfl
  | case3 b rest ih =>
      rw [ih]
      constructor
      · exact List.mem_cons_of_mem b
      · intro member
        rcases List.mem_cons.mp member with atHead | inRest
        · rw [atHead]
          exact List.mem_cons_self
        · exact inRest
  | case4 a b rest _ ih =>
      rw [List.mem_cons, ih]
      exact List.mem_cons.symm

theorem dropRepeats_pairwise_lt [DecidableEq α] [LinearOrder α] {items : List α}
    (sorted : items.Pairwise (· ≤ ·)) : (dropRepeats items).Pairwise (· < ·) := by
  fun_induction dropRepeats items with
  | case1 => exact List.Pairwise.nil
  | case2 a => exact List.pairwise_singleton _ a
  | case3 b rest ih => exact ih sorted.of_cons
  | case4 a b rest different ih =>
      have below : ∀ y ∈ b :: rest, a ≤ y := fun _ member => List.rel_of_pairwise_cons sorted member
      have bBelow : ∀ y ∈ rest, b ≤ y := fun _ member =>
        List.rel_of_pairwise_cons sorted.of_cons member
      refine List.Pairwise.cons (fun y member => ?_) (ih sorted.of_cons)
      have inRest : y ∈ b :: rest := mem_dropRepeats.mp member
      rcases List.mem_cons.mp inRest with rfl | later
      · exact lt_of_le_of_ne (below y List.mem_cons_self) different
      · have aBelowB : a < b := lt_of_le_of_ne (below b List.mem_cons_self) different
        exact lt_of_lt_of_le aBelowB (bBelow y later)

theorem mem_sortDistinct [DecidableEq α] {le : α → α → Bool} {items : List α} {x : α} :
    x ∈ sortDistinct le items ↔ x ∈ items := by
  rw [sortDistinct, mem_dropRepeats, List.mem_mergeSort]

theorem mergeSort_pairwise_key_le [LinearOrder β] {le : α → α → Bool} {key : α → β}
    (spec : ∀ a b, le a b = true ↔ key a ≤ key b) (items : List α) :
    ((items.mergeSort le).map key).Pairwise (· ≤ ·) := by
  have transitive : ∀ a b c, le a b = true → le b c = true → le a c = true := by
    intro a b c first second
    exact (spec a c).mpr (le_trans ((spec a b).mp first) ((spec b c).mp second))
  have total : ∀ a b, (le a b || le b a) = true := by
    intro a b
    rcases le_total (key a) (key b) with below | above
    · rw [(spec a b).mpr below, Bool.true_or]
    · rw [(spec b a).mpr above, Bool.or_true]
  have sorted := List.pairwise_mergeSort transitive total items
  rw [List.pairwise_map]
  exact sorted.imp fun related => (spec _ _).mp related

/-- Sorting elements whose keys are all different leaves the keys strictly increasing. -/
theorem mergeSort_keys_sortedLT [LinearOrder β] {le : α → α → Bool} {key : α → β}
    (spec : ∀ a b, le a b = true ↔ key a ≤ key b) {items : List α}
    (distinct : (items.map key).Nodup) : ((items.mergeSort le).map key).SortedLT := by
  have stillDistinct : ((items.mergeSort le).map key).Nodup :=
    ((List.mergeSort_perm items le).map key).nodup_iff.mpr distinct
  apply List.Pairwise.sortedLT
  exact ((mergeSort_pairwise_key_le spec items).and stillDistinct).imp
    fun ⟨below, different⟩ => lt_of_le_of_ne below different

theorem mergeSort_sortedLT [LinearOrder α] {le : α → α → Bool}
    (spec : ∀ a b, le a b = true ↔ a ≤ b) {items : List α} (distinct : items.Nodup) :
    (items.mergeSort le).SortedLT := by
  have sorted := @mergeSort_keys_sortedLT α α _ le id spec items (by rwa [List.map_id])
  rwa [List.map_id] at sorted

theorem sortDistinct_sortedLT [DecidableEq α] [LinearOrder α] {le : α → α → Bool}
    (spec : ∀ a b, le a b = true ↔ a ≤ b) (items : List α) :
    (sortDistinct le items).SortedLT := by
  have sorted : (items.mergeSort le).Pairwise (· ≤ ·) := by
    simpa using @mergeSort_pairwise_key_le α α _ le id spec items
  exact (dropRepeats_pairwise_lt sorted).sortedLT

@[simp] theorem mem_sortStrings {items : List String} {x : String} :
    x ∈ sortStrings items ↔ x ∈ items :=
  mem_sortDistinct

@[simp] theorem mem_sortNats {items : List Nat} {x : Nat} :
    x ∈ sortNats items ↔ x ∈ items :=
  mem_sortDistinct

theorem sortStrings_sortedLT (items : List String) : (sortStrings items).SortedLT :=
  sortDistinct_sortedLT (fun _ _ => decide_eq_true_iff) items

theorem sortNats_sortedLT (items : List Nat) : (sortNats items).SortedLT :=
  sortDistinct_sortedLT (fun _ _ => decide_eq_true_iff) items

theorem compareLex_eq_ite [LinearOrder α] {cmp : α → α → Ordering}
    (spec : ∀ a b, cmp a b = compare a b) (as bs : List α) :
    compareLex cmp as bs = if as < bs then .lt else if as = bs then .eq else .gt := by
  induction as generalizing bs with
  | nil =>
      cases bs with
      | nil => simp [compareLex]
      | cons b bs => simp [compareLex]
  | cons a as ih =>
      cases bs with
      | nil => simp [compareLex]
      | cons b bs =>
          rw [compareLex, spec]
          rcases lt_trichotomy a b with below | rfl | above
          · simp [compare_lt_iff_lt.mpr below, List.cons_lt_cons_iff, below]
          · simp [ih]
          · have notBelow : ¬ a < b := not_lt_of_gt above
            have different : a ≠ b := ne_of_gt above
            simp [compare_gt_iff_gt.mpr above, List.cons_lt_cons_iff, notBelow, different]

theorem compareLex_eq_lt_iff [LinearOrder α] {cmp : α → α → Ordering}
    (spec : ∀ a b, cmp a b = compare a b) {as bs : List α} :
    compareLex cmp as bs = .lt ↔ as < bs := by
  rw [compareLex_eq_ite spec]
  split_ifs with below same <;> simp [below]

theorem compareLex_eq_eq_iff [LinearOrder α] {cmp : α → α → Ordering}
    (spec : ∀ a b, cmp a b = compare a b) {as bs : List α} :
    compareLex cmp as bs = .eq ↔ as = bs := by
  rw [compareLex_eq_ite spec]
  split_ifs with below same
  · simp only [false_iff]
    exact ne_of_lt below
  · simp [same]
  · simp [same]

theorem compareLex_eq_gt_iff [LinearOrder α] {cmp : α → α → Ordering}
    (spec : ∀ a b, cmp a b = compare a b) {as bs : List α} :
    compareLex cmp as bs = .gt ↔ bs < as := by
  rw [compareLex_eq_ite spec]
  split_ifs with below same
  · simp only [false_iff, not_lt]
    exact le_of_lt below
  · simp [same]
  · simp only [true_iff]
    exact lt_of_le_of_ne (not_lt.mp below) (Ne.symm same)

/-! ### Relabelling -/

/-- One write of a relabelling: the position `pair.2` at the number `pair.1`. -/
abbrev writeAt (acc : List Nat) (pair : Nat × Nat) : List Nat := acc.set pair.1 pair.2

theorem relabel_eq (olds : List Nat) :
    relabel olds = olds.zipIdx.foldl writeAt (List.replicate olds.length 0) := rfl

theorem length_foldl_writeAt (pairs : List (Nat × Nat)) (acc : List Nat) :
    (pairs.foldl writeAt acc).length = acc.length := by
  induction pairs generalizing acc with
  | nil => rfl
  | cons pair more ih => rw [List.foldl_cons, ih, List.length_set]

/-- Numbers that no pair writes keep what they held. -/
theorem getElem?_foldl_writeAt_of_not_mem {pairs : List (Nat × Nat)} {acc : List Nat} {i : Nat}
    (absent : i ∉ pairs.map Prod.fst) : (pairs.foldl writeAt acc)[i]? = acc[i]? := by
  induction pairs generalizing acc with
  | nil => rfl
  | cons pair more ih =>
      simp only [List.map_cons, List.mem_cons, not_or] at absent
      rw [List.foldl_cons, ih absent.2, List.getElem?_set_ne (Ne.symm absent.1)]

/-- Each number written once holds the position written for it. -/
theorem getElem?_foldl_writeAt_of_mem {pairs : List (Nat × Nat)} {acc : List Nat}
    (distinct : (pairs.map Prod.fst).Nodup) {pair : Nat × Nat} (member : pair ∈ pairs)
    (inRange : pair.1 < acc.length) : (pairs.foldl writeAt acc)[pair.1]? = some pair.2 := by
  induction pairs generalizing acc with
  | nil => cases member
  | cons first more ih =>
      rw [List.map_cons, List.nodup_cons] at distinct
      rw [List.foldl_cons]
      rcases List.mem_cons.mp member with rfl | later
      · rw [getElem?_foldl_writeAt_of_not_mem distinct.1, List.getElem?_set_self inRange]
      · exact ih distinct.2 later (by rw [List.length_set]; exact inRange)

/-- Every value written, and the value every number starts with, satisfies `holds`. -/
theorem foldl_writeAt_forall {holds : Nat → Prop} {pairs : List (Nat × Nat)} {acc : List Nat}
    (initial : ∀ v ∈ acc, holds v) (written : ∀ pair ∈ pairs, holds pair.2) :
    ∀ v ∈ pairs.foldl writeAt acc, holds v := by
  induction pairs generalizing acc with
  | nil => exact initial
  | cons pair more ih =>
      refine ih (fun v member => ?_) (fun p member => written p (List.mem_cons_of_mem _ member))
      rcases List.mem_or_eq_of_mem_set member with old | rfl
      · exact initial v old
      · exact written pair List.mem_cons_self

theorem length_relabel (olds : List Nat) : (relabel olds).length = olds.length := by
  rw [relabel_eq, length_foldl_writeAt, List.length_replicate]

/-- A relabelling holds positions only. -/
theorem lt_of_mem_relabel {olds : List Nat} (nonempty : olds ≠ []) {v : Nat}
    (member : v ∈ relabel olds) : v < olds.length := by
  rw [relabel_eq] at member
  refine @foldl_writeAt_forall (· < olds.length) _ _ (fun v zero => ?_) (fun pair listed => ?_) v
    member
  · rw [List.eq_of_mem_replicate zero]
    exact List.length_pos_iff.mpr nonempty
  · obtain ⟨old, new⟩ := pair
    exact (List.getElem?_eq_some_iff.mp (List.mem_zipIdx_iff_getElem?.mp listed)).1

/-- When the numbers before sorting are the positions, each once, the relabelling takes the
number at sorted position `i` back to `i`. -/
theorem getElem?_relabel {olds : List Nat} (distinct : olds.Nodup)
    (inRange : ∀ old ∈ olds, old < olds.length) {i : Nat} (bound : i < olds.length) :
    (relabel olds)[olds[i]]? = some i := by
  have keys : (olds.zipIdx.map Prod.fst) = olds := List.zipIdx_map_fst 0 olds
  have member : (olds[i], i) ∈ olds.zipIdx :=
    List.mem_zipIdx_iff_getElem?.mpr (List.getElem?_eq_getElem bound)
  have keysDistinct : (olds.zipIdx.map Prod.fst).Nodup := by rw [keys]; exact distinct
  rw [relabel_eq]
  exact getElem?_foldl_writeAt_of_mem keysDistinct member
    (by rw [List.length_replicate]; exact inRange _ (List.getElem_mem bound))

section Permutation

variable {olds : List Nat} {n : Nat} (permuted : olds.Perm (List.range n))
include permuted

theorem length_eq_of_perm_range : olds.length = n :=
  permuted.length_eq.trans List.length_range

/-- When the numbers before sorting are the positions `0, …, n - 1` in some order, the
relabelling takes the number at sorted position `i` back to `i`. -/
theorem getElem?_relabel_of_perm {i : Nat} (bound : i < olds.length) :
    (relabel olds)[olds[i]]? = some i := by
  have inRange : ∀ old ∈ olds, old < olds.length := fun old member => by
    rw [length_eq_of_perm_range permuted]
    exact List.mem_range.mp (permuted.subset member)
  exact getElem?_relabel (permuted.nodup_iff.mpr List.nodup_range) inRange bound

/-- The relabelling of a permutation of the positions is again a permutation of them. -/
theorem relabel_perm_range : (relabel olds).Perm (List.range n) := by
  have sameLength := length_eq_of_perm_range permuted
  have covered : List.range n ⊆ relabel olds := by
    intro i listed
    have bound : i < olds.length := by
      rw [sameLength]
      exact List.mem_range.mp listed
    exact List.mem_of_getElem? (getElem?_relabel_of_perm permuted bound)
  have included := List.subperm_of_subset List.nodup_range covered
  exact (included.perm_of_length_le (by rw [length_relabel, sameLength, List.length_range])).symm

end Permutation

/-! ### Numbers cut to 32 bits -/

theorem toNat_toUInt32 (n : Nat) : n.toUInt32.toNat = n % 2 ^ 32 := by
  rw [Nat.toUInt32_eq, UInt32.toNat_ofNat']

theorem toNat_toUInt32_le (n : Nat) : n.toUInt32.toNat ≤ n := by
  rw [toNat_toUInt32]
  exact Nat.mod_le n _

theorem toNat_toUInt32_of_lt {n : Nat} (fits : n < 2 ^ 32) : n.toUInt32.toNat = n := by
  rw [toNat_toUInt32]
  exact Nat.mod_eq_of_lt fits

end RealmAccess.Order
