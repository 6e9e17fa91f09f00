import Mathlib.Data.Prod.Lex
import RealmAccess.Expansion
import RealmAccess.Proofs.Memo
import RealmAccess.Proofs.Order
/-!
# Numbering conditions: registering slots and finalizing

Registering a slot that holds a restriction always succeeds, and a run of registrations that
succeeds has registered every slot it was given (`addAll_registers`), building the table that
registering the slots one by one builds (`addAll_eq_addEach`).

After `finalize` the conditions are strictly increasing by attribute and then values, every
registered slot has a final number, and while the registered numbers are below the count of
conditions so are the final ones, however the numbers wrapped (`lt_of_index_finalize`).
`indexes` answers a strictly increasing list holding the numbers of exactly the slots asked for.
-/

namespace RealmAccess

/-- Conditions are ordered by attribute, then by values. -/
def Restriction.key (restriction : Restriction) : String ×ₗ List String :=
  toLex (restriction.attributeName, restriction.values)

theorem Restriction.key_injective : Function.Injective Restriction.key := by
  intro a b same
  have pair : (a.attributeName, a.values) = (b.attributeName, b.values) := congrArg ofLex same
  cases a
  cases b
  cases pair
  rfl

theorem Restriction.compare_ne_gt_iff (a b : Restriction) :
    (a.compare b != .gt) = true ↔ a.key ≤ b.key := by
  unfold Restriction.compare key
  rw [Prod.Lex.toLex_le_toLex]
  rcases lt_trichotomy a.attributeName b.attributeName with below | same | above
  · rw [compare_lt_iff_lt.mpr below]
    simp [below]
  · rw [same, compare_eq_iff_eq.mpr rfl]
    have lexGt := @Order.compareLex_eq_gt_iff String _ Ord.compare (fun _ _ => rfl) a.values b.values
    simp only [lt_irrefl, false_or, true_and, bne_iff_ne, ne_eq, lexGt, not_lt]
  · rw [compare_gt_iff_gt.mpr above]
    simp [not_lt_of_gt above, ne_of_gt above]

@[simp] theorem Restriction.normalize_attributeName (restriction : Restriction) :
    restriction.normalize.attributeName = restriction.attributeName := rfl

@[simp] theorem Restriction.mem_normalize_values {restriction : Restriction} {value : String} :
    value ∈ restriction.normalize.values ↔ value ∈ restriction.values :=
  Order.mem_sortStrings

theorem Restriction.normalize_values_sortedLT (restriction : Restriction) :
    restriction.normalize.values.SortedLT :=
  Order.sortStrings_sortedLT restriction.values

namespace ConditionTable

theorem add_ok (table : ConditionTable) (slot : Slot) {condition : Condition}
    (restricted : condition.restrict.isSome) :
    ∃ index table', table.add slot condition = .ok (index, table') := by
  obtain ⟨restriction, isRestricted⟩ := Option.isSome_iff_exists.mp restricted
  unfold add
  split
  · exact ⟨_, _, rfl⟩
  · simp only [isRestricted]
    split
    · exact ⟨_, _, rfl⟩
    · exact ⟨_, _, rfl⟩

/-- A successful registration has its slot registered, and keeps every slot registered
before. -/
theorem add_registers {table table' : ConditionTable} {slot : Slot} {condition : Condition}
    {index : UInt32} (added : table.add slot condition = .ok (index, table')) :
    (table'.slots.lookup slot).isSome ∧ table.slots ⊆ table'.slots := by
  unfold add at added
  split at added
  · next known found =>
      cases added
      exact ⟨by rw [found]; rfl, fun _ member => member⟩
  · split at added
    · cases added
    · dsimp only at added
      split at added <;>
      · cases added
        exact ⟨lookup_isSome_of_mem (List.mem_append_right _ (List.mem_singleton_self _)),
          List.subset_append_left _ _⟩

theorem addAll_cons_of_add {table : ConditionTable} {slot : Slot} {condition : Condition}
    {index : UInt32} {table' : ConditionTable} (added : table.add slot condition = .ok (index, table'))
    (more : List (Slot × Condition)) :
    table.addAll ((slot, condition) :: more) = table'.addAll more := by
  simp only [addAll, added]

theorem lookup_isSome_of_subset {slots slots' : List (Slot × UInt32)} (grown : slots ⊆ slots')
    {slot : Slot} (registered : (slots.lookup slot).isSome) : (slots'.lookup slot).isSome := by
  obtain ⟨index, found⟩ := Option.isSome_iff_exists.mp registered
  exact lookup_isSome_of_mem (grown (mem_of_lookup_eq_some found))

/-- A run of registrations that succeeds has registered every slot it was given. -/
theorem addAll_registers : ∀ {table table' : ConditionTable} {items : List (Slot × Condition)},
    table.addAll items = .ok table' →
    (∀ item ∈ items, (table'.slots.lookup item.1).isSome) ∧ table.slots ⊆ table'.slots
  | table, table', [], ran => by
      cases ran
      exact ⟨fun _ member => (by cases member), fun _ member => member⟩
  | table, table', (slot, condition) :: more, ran => by
      cases added : table.add slot condition with
      | error e =>
          simp only [addAll, added] at ran
          cases ran
      | ok pair =>
          obtain ⟨index, middle⟩ := pair
          obtain ⟨registered, grown⟩ := add_registers added
          rw [addAll_cons_of_add added] at ran
          obtain ⟨laterRegistered, laterGrown⟩ := addAll_registers ran
          refine ⟨fun item member => ?_, fun entry member => laterGrown (grown member)⟩
          rcases List.mem_cons.mp member with rfl | later
          · exact lookup_isSome_of_subset laterGrown registered
          · exact laterRegistered item later

theorem addAll_ok : ∀ (table : ConditionTable) {items : List (Slot × Condition)},
    (∀ item ∈ items, item.2.restrict.isSome) → ∃ table', table.addAll items = .ok table'
  | table, [], _ => ⟨table, rfl⟩
  | table, (slot, condition) :: more, restricted => by
      obtain ⟨index, middle, added⟩ := add_ok table slot (restricted _ List.mem_cons_self)
      rw [addAll_cons_of_add added]
      exact addAll_ok middle fun item member => restricted item (List.mem_cons_of_mem _ member)

/-- The table after one registration: the table it left, or the table it had when the
registration was refused. -/
def afterAdd (table : ConditionTable) (slot : Slot) (condition : Condition) : ConditionTable :=
  match table.add slot condition with
  | .ok (_, table') => table'
  | .error _ => table

theorem afterAdd_of_add {table table' : ConditionTable} {slot : Slot} {condition : Condition}
    {index : UInt32} (added : table.add slot condition = .ok (index, table')) :
    table.afterAdd slot condition = table' := by
  rw [afterAdd, added]

/-- After one registration a run goes on from the table that registration left. -/
theorem addEach_cons_snd (table : ConditionTable) (slot : Slot) (condition : Condition)
    (more : List (Slot × Condition)) :
    (table.addEach ((slot, condition) :: more)).2 =
      ((table.afterAdd slot condition).addEach more).2 := by
  rw [addEach, afterAdd]
  cases table.add slot condition with
  | ok answered =>
      obtain ⟨index, table'⟩ := answered
      dsimp only
  | error e => dsimp only

/-- A run that succeeds builds the table that registering its slots one by one builds. -/
theorem addAll_eq_addEach : ∀ {table table' : ConditionTable} {items : List (Slot × Condition)},
    table.addAll items = .ok table' → (table.addEach items).2 = table'
  | table, table', [], ran => by
      cases ran
      rfl
  | table, table', (slot, condition) :: more, ran => by
      cases added : table.add slot condition with
      | error e =>
          simp only [addAll, added] at ran
          cases ran
      | ok pair =>
          obtain ⟨index, middle⟩ := pair
          rw [addAll_cons_of_add added] at ran
          rw [addEach_cons_snd, afterAdd_of_add added]
          exact addAll_eq_addEach ran

/-! ### The finalized index -/

@[simp] theorem mem_finalize_conditions {table : ConditionTable} {condition : Restriction} :
    condition ∈ table.finalize.2 ↔ condition ∈ table.conditions :=
  List.mem_mergeSort

theorem length_finalize_conditions (table : ConditionTable) :
    table.finalize.2.length = table.conditions.length :=
  List.length_mergeSort _

theorem finalize_conditions_sortedLT {table : ConditionTable} (distinct : table.conditions.Nodup) :
    (table.finalize.2.map Restriction.key).SortedLT :=
  Order.mergeSort_keys_sortedLT Restriction.compare_ne_gt_iff
    ((List.nodup_map_iff Restriction.key_injective).mpr distinct)

/-- The numbers the conditions had before sorting, in sorted order. -/
def sortedNumbers (table : ConditionTable) : List Nat :=
  table.sortedConditions.map fun condition => (table.conditions.idxOf condition).toUInt32.toNat

theorem index_finalize (table : ConditionTable) (slot : Slot) :
    table.finalize.1.index slot =
      match table.slots.lookup slot with
      | some old => .ok ((Order.relabel table.sortedNumbers).getD old.toNat 0).toUInt32
      | none => .error (.unknownCondition slot) := by
  unfold finalize ConditionIndex.index
  simp only
  rw [lookup_map_of_keeps_keys]
  · cases table.slots.lookup slot <;> rfl
  · intro entry
    rfl

theorem index_finalize_ok {table : ConditionTable} {slot : Slot}
    (registered : (table.slots.lookup slot).isSome) :
    ∃ index, table.finalize.1.index slot = .ok index := by
  obtain ⟨old, looked⟩ := Option.isSome_iff_exists.mp registered
  rw [index_finalize, looked]
  exact ⟨_, rfl⟩

/-- While every registered number is below the count of conditions, every final number is too:
it is a sorted position, cut to 32 bits. -/
theorem lt_of_index_finalize {table : ConditionTable}
    (inRange : ∀ entry ∈ table.slots, entry.2.toNat < table.conditions.length) {slot : Slot}
    {index : UInt32} (found : table.finalize.1.index slot = .ok index) :
    index.toNat < table.finalize.2.length := by
  rw [index_finalize] at found
  split at found
  · next old looked =>
    cases found
    have numbered := inRange (slot, old) (mem_of_lookup_eq_some looked)
    have counted : table.sortedNumbers.length = table.finalize.2.length := by
      rw [sortedNumbers, List.length_map]
      rfl
    have nonempty : table.sortedNumbers ≠ [] := by
      rw [← List.length_pos_iff, counted, length_finalize_conditions]
      omega
    -- the number read is a written position or the starting `0`, both positions
    have position : (Order.relabel table.sortedNumbers).getD old.toNat 0 <
        table.sortedNumbers.length := by
      rw [List.getD_eq_getElem?_getD]
      cases read : (Order.relabel table.sortedNumbers)[old.toNat]? with
      | none => exact List.length_pos_iff.mpr nonempty
      | some v => exact Order.lt_of_mem_relabel nonempty (List.mem_of_getElem? read)
    rw [← counted]
    exact Nat.lt_of_le_of_lt (Order.toNat_toUInt32_le _) position
  · cases found

end ConditionTable

namespace ConditionIndex

/-- The numbers of several slots: strictly increasing, and exactly the numbers of those slots. -/
theorem indexes_spec {ix : ConditionIndex} {slots : List Slot} {found : List Nat}
    (answered : ix.indexes slots = .ok found) :
    found.SortedLT ∧ ∀ number, number ∈ found ↔
      ∃ slot ∈ slots, ∃ index, ix.index slot = .ok index ∧ index.toNat = number := by
  unfold indexes at answered
  split at answered
  · cases answered
    exact ⟨List.Pairwise.sortedLT List.Pairwise.nil, fun _ => by simp⟩
  · next slot =>
    cases single : ix.index slot with
    | error e =>
        rw [single] at answered
        cases answered
    | ok index =>
        rw [single] at answered
        cases answered
        refine ⟨List.Pairwise.sortedLT (List.pairwise_singleton _ index.toNat), fun other => ?_⟩
        simp [single, eq_comm]
  · cases all : slots.mapM ix.index with
    | error e =>
        rw [all] at answered
        cases answered
    | ok numbers =>
        rw [all] at answered
        cases answered
        refine ⟨Order.sortNats_sortedLT _, fun number => ?_⟩
        rw [Order.mem_sortNats, List.mem_map]
        constructor
        · rintro ⟨index, listed, rfl⟩
          obtain ⟨slot, member, indexed⟩ := (mem_of_mapM_eq_ok all).mp listed
          exact ⟨slot, member, index, indexed, rfl⟩
        · rintro ⟨slot, member, index, indexed, rfl⟩
          exact ⟨index, (mem_of_mapM_eq_ok all).mpr ⟨slot, member, indexed⟩, rfl⟩

theorem indexes_ok {ix : ConditionIndex} {slots : List Slot}
    (all : ∀ slot ∈ slots, ∃ index, ix.index slot = .ok index) :
    ∃ found, ix.indexes slots = .ok found := by
  unfold indexes
  split
  · exact ⟨[], rfl⟩
  · next slot =>
    obtain ⟨index, numbered⟩ := all slot List.mem_cons_self
    rw [numbered]
    exact ⟨[index.toNat], rfl⟩
  · obtain ⟨numbers, ran⟩ := mapM_eq_ok_of_forall all
    rw [ran]
    exact ⟨_, rfl⟩

end ConditionIndex

end RealmAccess
