import Mathlib.Data.Finset.Card
import Mathlib.Data.List.Induction
import RealmAccess.Proofs.ConditionTable
import RealmAccess.Proofs.Graph
/-!
# Numbering conditions in first-seen order

A run of registrations is described here without the table. `registered items` lists the slots
the run registers, in order, each with the restriction of its first successful registration;
`firstSeen` lists the distinct normal forms of those restrictions in the order they first occur;
and `tableOf done` is the table these determine: its conditions are `firstSeen done`, and each
slot is numbered by its normal form's position there, cut to 32 bits.

Every run from the empty table builds `tableOf (registered items)` (`addEach_fresh`), and one
registration on such a table is one step of the description (`add_tableOf`): a registered slot
answers its number and changes nothing, an empty condition for a new slot is refused, and a new
slot with a restriction is numbered by its normal form's first-seen position. While there are at
most `2 ^ 32` distinct conditions no number wraps, and after `finalize` the number of a
registered slot picks out its normal form, two registered slots share a number exactly when
their normal forms agree, and an unregistered slot has no number. With one more condition the
numbers wrap (`condition_numbers_wrap`).

A working realm list whose positions and normal forms fit 32 bits (`RealmGraph.Fits32`) has a
slot of its own for every condition, so its run registers every condition under its own slot.
-/

namespace RealmAccess

namespace ConditionTable

/-- One registration in the description: a slot not yet registered is registered with its
restriction, if it has one; anything else changes nothing. -/
def register (done : List (Slot × Restriction)) (item : Slot × Condition) :
    List (Slot × Restriction) :=
  match done.lookup item.1 with
  | some _ => done
  | none =>
      match item.2.restrict with
      | none => done
      | some restriction => done ++ [(item.1, restriction)]

/-- The slots a run of registrations registers, in order, each with the restriction of its first
successful registration. -/
def registered (items : List (Slot × Condition)) : List (Slot × Restriction) :=
  items.foldl register []

/-- The distinct normal forms of the registered restrictions, in the order they first occur. -/
def firstSeen (done : List (Slot × Restriction)) : List Restriction :=
  (done.map fun entry => entry.2.normalize).eraseDups

/-- The table that registering `done` in order builds: the normal forms in first-seen order, each
slot numbered by the position of its normal form, cut to 32 bits. -/
def tableOf (done : List (Slot × Restriction)) : ConditionTable where
  conditions := firstSeen done
  slots := done.map fun entry => (entry.1, ((firstSeen done).idxOf entry.2.normalize).toUInt32)

variable {done : List (Slot × Restriction)}

theorem mem_firstSeen {condition : Restriction} :
    condition ∈ firstSeen done ↔ ∃ entry ∈ done, entry.2.normalize = condition := by
  rw [firstSeen, List.mem_eraseDups, List.mem_map]

theorem normalize_mem_firstSeen {slot : Slot} {restriction : Restriction}
    (looked : done.lookup slot = some restriction) : restriction.normalize ∈ firstSeen done :=
  mem_firstSeen.mpr ⟨_, mem_of_lookup_eq_some looked, rfl⟩

/-- One more registration adds its normal form at the end, unless it has been seen. -/
theorem firstSeen_append (done : List (Slot × Restriction)) (entry : Slot × Restriction) :
    firstSeen (done ++ [entry]) =
      firstSeen done ++ if entry.2.normalize ∈ firstSeen done then [] else [entry.2.normalize] := by
  unfold firstSeen
  rw [List.map_append, List.eraseDups_append, List.map_singleton]
  by_cases seen : entry.2.normalize ∈ done.map fun entry => entry.2.normalize
  · simp [List.removeAll, List.mem_eraseDups, seen]
  · simp [List.removeAll, List.mem_eraseDups, List.eraseDups_cons, seen]

theorem nodup_firstSeen (done : List (Slot × Restriction)) : (firstSeen done).Nodup := by
  induction done using List.reverseRecOn with
  | nil => exact List.nodup_nil
  | append_singleton done entry distinct =>
      rw [firstSeen_append]
      split_ifs with seen
      · rw [List.append_nil]
        exact distinct
      · rw [← List.concat_eq_append]
        exact distinct.concat seen

theorem lookup_tableOf (done : List (Slot × Restriction)) (slot : Slot) :
    (tableOf done).slots.lookup slot =
      (done.lookup slot).map fun restriction =>
        ((firstSeen done).idxOf restriction.normalize).toUInt32 :=
  @lookup_map_of_keeps_keys Slot Restriction UInt32 _ _
    (fun entry => (entry.1, ((firstSeen done).idxOf entry.2.normalize).toUInt32)) (fun _ => rfl)
    done slot

/-- Registering a restriction whose normal form has been seen numbers the slot by that form. -/
theorem tableOf_append_of_seen {slot : Slot} {restriction : Restriction}
    (seen : restriction.normalize ∈ firstSeen done) :
    tableOf (done ++ [(slot, restriction)]) =
      { tableOf done with
        slots := (tableOf done).slots ++
          [(slot, ((firstSeen done).idxOf restriction.normalize).toUInt32)] } := by
  unfold tableOf
  rw [firstSeen_append, if_pos seen, List.append_nil, List.map_append]
  rfl

/-- Registering a restriction with an unseen normal form adds the form at the end, and earlier
slots keep their numbers. -/
theorem tableOf_append_of_unseen {slot : Slot} {restriction : Restriction}
    (unseen : restriction.normalize ∉ firstSeen done) :
    tableOf (done ++ [(slot, restriction)]) =
      { conditions := firstSeen done ++ [restriction.normalize],
        slots := (tableOf done).slots ++ [(slot, (firstSeen done).length.toUInt32)] } := by
  have earlier : ∀ entry ∈ done, (firstSeen done ++ [restriction.normalize]).idxOf
      entry.2.normalize = (firstSeen done).idxOf entry.2.normalize :=
    fun entry member => List.idxOf_append_of_mem (mem_firstSeen.mpr ⟨entry, member, rfl⟩)
  have last : (firstSeen done ++ [restriction.normalize]).idxOf restriction.normalize =
      (firstSeen done).length := by
    rw [List.idxOf_append_of_notMem unseen]
    simp
  unfold tableOf
  rw [firstSeen_append, if_neg unseen, List.map_append, List.map_singleton,
    List.map_congr_left fun entry member => by rw [earlier entry member]]
  dsimp only
  rw [last]

/-- A registration on the table of `done` answers as the description says, and leaves the table
of the description one step on. -/
theorem add_tableOf (done : List (Slot × Restriction)) (slot : Slot) (condition : Condition) :
    (tableOf done).add slot condition =
      match done.lookup slot with
      | some restriction =>
          .ok (((firstSeen done).idxOf restriction.normalize).toUInt32, tableOf done)
      | none =>
          match condition.restrict with
          | none => .error (.emptyCondition slot)
          | some restriction =>
              .ok (((firstSeen (done ++ [(slot, restriction)])).idxOf
                  restriction.normalize).toUInt32,
                tableOf (done ++ [(slot, restriction)])) := by
  unfold add
  rw [lookup_tableOf]
  cases looked : done.lookup slot with
  | some restriction => rfl
  | none =>
      cases restricted : condition.restrict with
      | none => rfl
      | some restriction =>
          have conditions : (tableOf done).conditions = firstSeen done := rfl
          simp only [Option.map_none, conditions]
          -- the table numbers the slot by the normal form's first position, old or new
          by_cases seen : restriction.normalize ∈ firstSeen done
          · have found : (firstSeen done).idxOf? restriction.normalize =
                some ((firstSeen done).idxOf restriction.normalize) :=
              List.findIdx?_eq_some_iff_findIdx_eq.mpr ⟨List.idxOf_lt_length_of_mem seen, rfl⟩
            rw [found, tableOf_append_of_seen seen, firstSeen_append, if_pos seen, List.append_nil]
            rfl
          · have absent : (firstSeen done).idxOf? restriction.normalize = none :=
              List.idxOf?_eq_none_iff.mpr seen
            rw [absent, tableOf_append_of_unseen seen, firstSeen_append, if_neg seen,
              List.idxOf_append_of_notMem seen, List.idxOf_cons_self, Nat.add_zero]

/-- Registering items on the table of `done` builds the table of `done` with the items
registered. -/
theorem addEach_tableOf : ∀ (items : List (Slot × Condition)) (done : List (Slot × Restriction)),
    ((tableOf done).addEach items).2 = tableOf (items.foldl register done)
  | [], _ => rfl
  | (slot, condition) :: more, done => by
      -- one registration leaves the table of the description one step on, refused or not
      have step : (tableOf done).afterAdd slot condition =
          tableOf (register done (slot, condition)) := by
        rw [afterAdd, add_tableOf]
        unfold register
        dsimp only
        cases done.lookup slot with
        | some restriction => rfl
        | none =>
            cases condition.restrict with
            | none => rfl
            | some restriction => rfl
      rw [addEach_cons_snd, step, addEach_tableOf more]
      rfl

/-- Every run of registrations from the empty table builds the table its description gives. -/
theorem addEach_fresh (items : List (Slot × Condition)) :
    (({} : ConditionTable).addEach items).2 = tableOf (registered items) :=
  addEach_tableOf items []

/-- A run that succeeds from the empty table builds the table of what it registered. -/
theorem addAll_fresh {items : List (Slot × Condition)} {table : ConditionTable}
    (added : ({} : ConditionTable).addAll items = .ok table) : table = tableOf (registered items) :=
  (addAll_eq_addEach added).symm.trans (addEach_fresh items)

/-- The table counts the distinct normal forms of the registered restrictions. -/
theorem size_tableOf_eq_length (done : List (Slot × Restriction)) :
    (tableOf done).size = (firstSeen done).length := rfl

theorem size_tableOf (done : List (Slot × Restriction)) :
    (tableOf done).size = (done.map fun entry => entry.2.normalize).toFinset.card := by
  have same : (firstSeen done).toFinset = (done.map fun entry => entry.2.normalize).toFinset := by
    ext condition
    rw [List.mem_toFinset, List.mem_toFinset, firstSeen, List.mem_eraseDups]
  rw [← same, List.toFinset_card_of_nodup (nodup_firstSeen done)]
  rfl

/-- Every number the table of `done` hands out is below its count of conditions. -/
theorem numbers_lt_tableOf : ∀ entry ∈ (tableOf done).slots,
    entry.2.toNat < (tableOf done).conditions.length := by
  intro entry member
  obtain ⟨⟨slot, restriction⟩, listed, rfl⟩ := List.mem_map.mp member
  have seen : restriction.normalize ∈ firstSeen done := mem_firstSeen.mpr ⟨_, listed, rfl⟩
  exact Nat.lt_of_le_of_lt (Order.toNat_toUInt32_le _) (List.idxOf_lt_length_of_mem seen)

theorem values_sortedLT_of_mem_tableOf {condition : Restriction}
    (member : condition ∈ (tableOf done).conditions) : condition.values.SortedLT := by
  obtain ⟨entry, -, rfl⟩ := mem_firstSeen.mp member
  exact Restriction.normalize_values_sortedLT entry.2

/-! ### What a run registers -/

/-- Whatever a run registers is a slot given with that restriction. -/
theorem mem_foldl_register : ∀ {items : List (Slot × Condition)} {done : List (Slot × Restriction)}
    {entry : Slot × Restriction}, entry ∈ items.foldl register done →
    entry ∈ done ∨ (entry.1, (⟨some entry.2⟩ : Condition)) ∈ items
  | [], _, _, member => .inl member
  | ⟨slot, ⟨restrict⟩⟩ :: more, done, entry, member => by
      rcases @mem_foldl_register more _ entry member with earlier | later
      · unfold register at earlier
        split at earlier
        · exact .inl earlier
        · split at earlier
          · exact .inl earlier
          · next restriction restricted =>
            rcases List.mem_append.mp earlier with old | new
            · exact .inl old
            · rw [List.mem_singleton.mp new]
              cases restricted
              exact .inr List.mem_cons_self
      · exact .inr (List.mem_cons_of_mem _ later)

/-- A run keeps whatever was registered before it. -/
theorem mem_foldl_register_of_mem : ∀ {items : List (Slot × Condition)}
    {done : List (Slot × Restriction)} {entry : Slot × Restriction}, entry ∈ done →
    entry ∈ items.foldl register done
  | [], _, _, member => member
  | item :: more, done, entry, member => by
      rw [List.foldl_cons]
      apply mem_foldl_register_of_mem
      unfold register
      split
      · exact member
      · split
        · exact member
        · exact List.mem_append_left _ member

/-- A run registers each slot at most once. -/
theorem nodup_keys_foldl_register : ∀ {items : List (Slot × Condition)}
    {done : List (Slot × Restriction)}, (done.map Prod.fst).Nodup →
    ((items.foldl register done).map Prod.fst).Nodup
  | [], _, distinct => distinct
  | item :: more, done, distinct => by
      rw [List.foldl_cons]
      apply nodup_keys_foldl_register
      unfold register
      split
      · exact distinct
      · next unregistered =>
          split
          · exact distinct
          · -- a slot is registered only while it has no entry
            have fresh : item.1 ∉ done.map Prod.fst := by
              intro listed
              obtain ⟨entry, member, same⟩ := List.mem_map.mp listed
              have found : (done.lookup item.1).isSome := by
                rw [← same]
                exact lookup_isSome_of_mem member
              rw [unregistered] at found
              cases found
            rw [List.map_append, List.map_singleton, ← List.concat_eq_append]
            exact distinct.concat fresh

/-- The first item of a run, when it has a restriction, is registered with it. -/
theorem mem_registered_cons {item : Slot × Condition} {restriction : Restriction}
    (restricted : item.2.restrict = some restriction) (more : List (Slot × Condition)) :
    (item.1, restriction) ∈ registered (item :: more) := by
  rw [registered, List.foldl_cons]
  apply mem_foldl_register_of_mem
  unfold register
  rw [List.lookup_nil]
  dsimp only
  rw [restricted]
  exact List.mem_append_right _ (List.mem_singleton_self _)

/-- Two registrations of one slot are the same registration. -/
theorem eq_of_mem_registered {items : List (Slot × Condition)} {entry entry' : Slot × Restriction}
    (member : entry ∈ registered items) (member' : entry' ∈ registered items)
    (same : entry.1 = entry'.1) : entry = entry' :=
  List.inj_on_of_nodup_map (@nodup_keys_foldl_register items [] List.nodup_nil) member member' same

theorem mem_of_mem_registered {items : List (Slot × Condition)} {entry : Slot × Restriction}
    (member : entry ∈ registered items) : (entry.1, (⟨some entry.2⟩ : Condition)) ∈ items := by
  rcases mem_foldl_register member with inEmpty | given
  · cases inEmpty
  · exact given

theorem lookup_append_singleton (entries : List (Slot × Restriction)) (key slot : Slot)
    (restriction : Restriction) :
    (entries ++ [(key, restriction)]).lookup slot =
      (entries.lookup slot).or (if slot = key then some restriction else none) := by
  rw [List.lookup_append, List.lookup_cons]
  by_cases same : slot = key
  · simp [same]
  · simp [beq_false_of_ne same, same]

/-- When all the conditions given for a slot agree, the run registers the slot with the
restriction of that condition, if it has one. -/
theorem lookup_foldl_register_of_agree : ∀ {items : List (Slot × Condition)},
    (∀ a ∈ items, ∀ b ∈ items, a.1 = b.1 → a.2 = b.2) →
    ∀ (done : List (Slot × Restriction)) (slot : Slot),
      (items.foldl register done).lookup slot =
        (done.lookup slot).or ((items.lookup slot).bind (·.restrict))
  | [], _, done, slot => by simp
  | ⟨key, condition⟩ :: more, agree, done, slot => by
      have agreeMore : ∀ a ∈ more, ∀ b ∈ more, a.1 = b.1 → a.2 = b.2 :=
        fun a aMember b bMember => agree a (List.mem_cons_of_mem _ aMember) b
          (List.mem_cons_of_mem _ bMember)
      rw [List.foldl_cons, lookup_foldl_register_of_agree agreeMore, List.lookup_cons]
      unfold register
      dsimp only
      by_cases same : slot = key
      · subst same
        simp only [beq_self_eq_true]
        -- a later condition of the slot is this one, so it restricts exactly when this one does
        have later : (more.lookup slot).bind (·.restrict) = none ∨
            (more.lookup slot).bind (·.restrict) = condition.restrict := by
          cases looked : more.lookup slot with
          | none => exact .inl rfl
          | some other =>
              have agreeing : condition = other :=
                agree (slot, condition) List.mem_cons_self (slot, other)
                  (List.mem_cons_of_mem _ (mem_of_lookup_eq_some looked)) rfl
              exact .inr (by rw [agreeing]; rfl)
        cases found : done.lookup slot with
        | some restriction => simp [found]
        | none =>
            cases restricted : condition.restrict with
            | none =>
                rcases later with unrestricted | unrestricted <;>
                  simp [found, unrestricted, restricted]
            | some restriction => simp [lookup_append_singleton, found, restricted]
      · have different : (slot == key) = false := beq_false_of_ne same
        rw [different]
        cases done.lookup key with
        | some _ => rfl
        | none =>
            cases condition.restrict with
            | none => rfl
            | some restriction => simp [lookup_append_singleton, same]

/-- A slot given once, or given only with one condition, is looked up as that condition. -/
theorem lookup_eq_of_mem_of_agree : ∀ {items : List (Slot × Condition)},
    (∀ a ∈ items, ∀ b ∈ items, a.1 = b.1 → a.2 = b.2) → ∀ {item : Slot × Condition},
    item ∈ items → items.lookup item.1 = some item.2
  | [], _, _, member => by cases member
  | first :: more, agree, item, member => by
      rw [List.lookup_cons]
      by_cases same : item.1 = first.1
      · rw [beq_iff_eq.mpr same]
        exact congrArg some (agree first List.mem_cons_self item member same.symm)
      · rw [beq_false_of_ne same]
        have later : item ∈ more := by
          rcases List.mem_cons.mp member with rfl | later
          · exact absurd rfl same
          · exact later
        exact lookup_eq_of_mem_of_agree (fun a aMember b bMember => agree a
          (List.mem_cons_of_mem _ aMember) b (List.mem_cons_of_mem _ bMember)) later

/-! ### The finalized table -/

theorem mem_finalize_tableOf {condition : Restriction} :
    condition ∈ (tableOf done).finalize.2 ↔ ∃ entry ∈ done, entry.2.normalize = condition :=
  mem_finalize_conditions.trans mem_firstSeen

/-- A position in a list of at most `2 ^ 32` conditions keeps its value as a 32-bit number. -/
theorem toNat_idxOf_of_length_le {conditions : List Restriction}
    (fits : conditions.length ≤ 2 ^ 32) {condition : Restriction} (member : condition ∈ conditions) :
    ((conditions.idxOf condition).toUInt32).toNat = conditions.idxOf condition :=
  Order.toNat_toUInt32_of_lt (Nat.lt_of_lt_of_le (List.idxOf_lt_length_of_mem member) fits)

/-- Below `2 ^ 32` conditions no number wraps: the final number of a registered slot is the
position of its normal form among the sorted conditions. -/
theorem index_finalize_tableOf (fits : (firstSeen done).length ≤ 2 ^ 32) {slot : Slot}
    {restriction : Restriction} (looked : done.lookup slot = some restriction) :
    (tableOf done).finalize.1.index slot =
      .ok (((tableOf done).finalize.2.idxOf restriction.normalize).toUInt32) := by
  have seen : restriction.normalize ∈ (tableOf done).conditions := normalize_mem_firstSeen looked
  have numberFits : ∀ condition ∈ firstSeen done,
      ((firstSeen done).idxOf condition).toUInt32.toNat = (firstSeen done).idxOf condition :=
    fun _ member => toNat_idxOf_of_length_le fits member
  -- before sorting each condition was numbered by its first-seen position
  have olds : (tableOf done).sortedNumbers =
      (tableOf done).finalize.2.map (firstSeen done).idxOf :=
    List.map_congr_left fun condition member =>
      numberFits condition (mem_finalize_conditions.mp member)
  have sortedDistinct : (tableOf done).finalize.2.Nodup :=
    (List.mergeSort_perm _ _).nodup_iff.mpr (nodup_firstSeen done)
  have oldsDistinct : ((tableOf done).finalize.2.map (firstSeen done).idxOf).Nodup :=
    List.Nodup.map_on (fun x xMember y _ same =>
      (List.idxOf_inj (mem_finalize_conditions.mp xMember)).mp same) sortedDistinct
  have oldsInRange : ∀ old ∈ (tableOf done).finalize.2.map (firstSeen done).idxOf,
      old < ((tableOf done).finalize.2.map (firstSeen done).idxOf).length := by
    intro old member
    obtain ⟨condition, listed, rfl⟩ := List.mem_map.mp member
    rw [List.length_map, length_finalize_conditions]
    exact List.idxOf_lt_length_of_mem (mem_finalize_conditions.mp listed)
  have position := List.idxOf_lt_length_of_mem (mem_finalize_conditions.mpr seen)
  have relabelled := Order.getElem?_relabel oldsDistinct oldsInRange
    (by rw [List.length_map]; exact position)
  rw [List.getElem_map, List.getElem_idxOf position] at relabelled
  rw [index_finalize, lookup_tableOf, looked, Option.map_some]
  dsimp only
  rw [numberFits _ seen, olds, List.getD_eq_getElem?_getD, relabelled, Option.getD_some]

theorem index_finalize_of_lookup_none {slot : Slot} (unregistered : done.lookup slot = none) :
    (tableOf done).finalize.1.index slot = .error (.unknownCondition slot) := by
  rw [index_finalize, lookup_tableOf, unregistered]
  rfl

/-- A position among at most `2 ^ 32` conditions keeps its value as a 32-bit number. -/
theorem toNat_idxOf_finalize (fits : (firstSeen done).length ≤ 2 ^ 32) {condition : Restriction}
    (member : condition ∈ (tableOf done).finalize.2) :
    (((tableOf done).finalize.2.idxOf condition).toUInt32).toNat =
      (tableOf done).finalize.2.idxOf condition := by
  apply toNat_idxOf_of_length_le _ member
  rw [length_finalize_conditions]
  exact fits

/-- Below `2 ^ 32` conditions a registered slot has a final number, and that number picks out the
slot's normal form. -/
theorem exists_index_finalize_tableOf (fits : (firstSeen done).length ≤ 2 ^ 32) {slot : Slot}
    {restriction : Restriction} (looked : done.lookup slot = some restriction) :
    ∃ index, (tableOf done).finalize.1.index slot = .ok index ∧
      (tableOf done).finalize.2[index.toNat]? = some restriction.normalize := by
  have member : restriction.normalize ∈ (tableOf done).finalize.2 :=
    mem_finalize_tableOf.mpr ⟨_, mem_of_lookup_eq_some looked, rfl⟩
  refine ⟨_, index_finalize_tableOf fits looked, ?_⟩
  rw [toNat_idxOf_finalize fits member]
  exact List.getElem?_idxOf member

/-- Below `2 ^ 32` conditions two registered slots share a final number exactly when their
normal forms agree. -/
theorem index_finalize_eq_iff (fits : (firstSeen done).length ≤ 2 ^ 32) {slot slot' : Slot}
    {restriction restriction' : Restriction} (looked : done.lookup slot = some restriction)
    (looked' : done.lookup slot' = some restriction') :
    (tableOf done).finalize.1.index slot = (tableOf done).finalize.1.index slot' ↔
      restriction.normalize = restriction'.normalize := by
  have member : restriction.normalize ∈ (tableOf done).finalize.2 :=
    mem_finalize_tableOf.mpr ⟨_, mem_of_lookup_eq_some looked, rfl⟩
  have member' : restriction'.normalize ∈ (tableOf done).finalize.2 :=
    mem_finalize_tableOf.mpr ⟨_, mem_of_lookup_eq_some looked', rfl⟩
  rw [index_finalize_tableOf fits looked, index_finalize_tableOf fits looked', Except.ok.injEq]
  constructor
  · intro same
    have positions := congrArg UInt32.toNat same
    rw [toNat_idxOf_finalize fits member, toNat_idxOf_finalize fits member'] at positions
    exact (List.idxOf_inj member).mp positions
  · intro same
    rw [same]

/-- Registering conditions slot by slot from the empty table, then finalizing. The table is the
one the description of the run gives. A further registration answers a registered slot's number
and changes nothing, refuses an empty condition for a new slot, and numbers a new slot with a
restriction by its normal form's first-seen position, cut to 32 bits; the table counts the
distinct normal forms. After `finalize` the conditions strictly increase and are exactly the
normal forms of the registered slots, and an unregistered slot has no number. While there are
at most `2 ^ 32` of them, the number of a registered slot picks out its own normal form, and two
registered slots share a number exactly when their normal forms agree. -/
theorem condition_numbers_follow_first_seen (items : List (Slot × Condition)) :
    let table := (({} : ConditionTable).addEach items).2
    let done := registered items
    table = tableOf done ∧
      (∀ slot condition, table.add slot condition =
        match done.lookup slot with
        | some restriction =>
            .ok (((firstSeen done).idxOf restriction.normalize).toUInt32, table)
        | none =>
            match condition.restrict with
            | none => .error (.emptyCondition slot)
            | some restriction =>
                .ok (((firstSeen (done ++ [(slot, restriction)])).idxOf
                    restriction.normalize).toUInt32,
                  tableOf (done ++ [(slot, restriction)]))) ∧
      table.size = (done.map fun entry => entry.2.normalize).toFinset.card ∧
      (table.finalize.2.map Restriction.key).SortedLT ∧
      (∀ condition, condition ∈ table.finalize.2 ↔
        ∃ entry ∈ done, entry.2.normalize = condition) ∧
      (table.size ≤ 2 ^ 32 →
        (∀ slot restriction, done.lookup slot = some restriction →
          ∃ index, table.finalize.1.index slot = .ok index ∧
            table.finalize.2[index.toNat]? = some restriction.normalize) ∧
        ∀ slot slot' restriction restriction', done.lookup slot = some restriction →
          done.lookup slot' = some restriction' →
          (table.finalize.1.index slot = table.finalize.1.index slot' ↔
            restriction.normalize = restriction'.normalize)) ∧
      ∀ slot, done.lookup slot = none →
        table.finalize.1.index slot = .error (.unknownCondition slot) := by
  intro table done
  have built : table = tableOf done := addEach_fresh items
  rw [built]
  refine ⟨rfl, fun slot condition => add_tableOf done slot condition, size_tableOf done,
    finalize_conditions_sortedLT (nodup_firstSeen done), fun _ => mem_finalize_tableOf,
    fun fits => ⟨fun _ _ looked => exists_index_finalize_tableOf fits looked,
      fun _ _ _ _ looked looked' => index_finalize_eq_iff fits looked looked'⟩,
    fun _ unregistered => index_finalize_of_lookup_none unregistered⟩

/-! ### Past `2 ^ 32` conditions -/

/-- A run whose slots are distinct registers each restricted slot once, in order. -/
theorem foldl_register_of_nodup : ∀ {items : List (Slot × Condition)}
    {done : List (Slot × Restriction)}, (items.map Prod.fst).Nodup →
    (∀ item ∈ items, done.lookup item.1 = none) →
    items.foldl register done = done ++ items.filterMap fun item => item.2.restrict.map (item.1, ·)
  | [], done, _, _ => by simp
  | ⟨slot, condition⟩ :: more, done, distinct, fresh => by
      rw [List.map_cons, List.nodup_cons] at distinct
      have unregistered : done.lookup slot = none := fresh _ List.mem_cons_self
      -- no later slot is this one, so registering it keeps the later slots fresh
      have freshLater : ∀ item ∈ more,
          (register done (slot, condition)).lookup item.1 = none := by
        intro item member
        have different : item.1 ≠ slot := fun same =>
          distinct.1 (List.mem_map.mpr ⟨item, member, same⟩)
        unfold register
        dsimp only
        rw [unregistered]
        cases condition.restrict with
        | none => exact fresh item (List.mem_cons_of_mem _ member)
        | some restriction =>
            rw [lookup_append_singleton, fresh item (List.mem_cons_of_mem _ member), if_neg different]
            rfl
      rw [List.foldl_cons, foldl_register_of_nodup distinct.2 freshLater]
      unfold register
      dsimp only
      rw [unregistered, List.filterMap_cons]
      cases condition.restrict with
      | none => rfl
      | some restriction => simp

/-- The restriction of attribute `a` repeated `k` times, with no values. -/
def repeatedAttribute (k : Nat) : Restriction :=
  { attributeName := String.ofList (List.replicate k 'a') }

theorem repeatedAttribute_injective : Function.Injective repeatedAttribute := by
  intro k k' same
  have names := congrArg (fun restriction : Restriction => restriction.attributeName.toList) same
  simp only [repeatedAttribute, String.toList_ofList, List.replicate_inj] at names
  exact names.1

@[simp] theorem normalize_repeatedAttribute (k : Nat) :
    (repeatedAttribute k).normalize = repeatedAttribute k := by
  simp [repeatedAttribute, Restriction.normalize, Order.sortStrings, Order.sortDistinct,
    Order.dropRepeats]

/-- `2 ^ 32` slots of one binding, each with a restriction of its own. -/
def wrappingItems : List (Slot × Condition) :=
  (List.range (2 ^ 32)).map fun k => (Slot.ofIndices 0 0 k, ⟨some (repeatedAttribute k)⟩)

theorem registered_wrappingItems :
    registered wrappingItems =
      (List.range (2 ^ 32)).map fun k => (Slot.ofIndices 0 0 k, repeatedAttribute k) := by
  have distinct : (wrappingItems.map Prod.fst).Nodup := by
    rw [wrappingItems, List.map_map]
    refine List.Nodup.map_on (fun k kMember k' k'Member same => ?_) List.nodup_range
    have bounds := List.mem_range.mp kMember
    have bounds' := List.mem_range.mp k'Member
    exact (Slot.ofIndices_inj ⟨by omega, by omega, bounds⟩ ⟨by omega, by omega, bounds'⟩ same).2.2
  rw [registered, foldl_register_of_nodup distinct (fun _ _ => rfl), List.nil_append, wrappingItems,
    List.filterMap_map]
  simp

/-- Past `2 ^ 32` conditions the numbers wrap: a new slot with a new restriction, whose normal
form comes `2 ^ 32`-th in first-seen order, is numbered `0`. -/
theorem condition_numbers_wrap :
    ¬ ∀ (items : List (Slot × Condition)) (slot : Slot) (restriction : Restriction),
      (registered items).lookup slot = none →
      ∃ index table', (({} : ConditionTable).addEach items).2.add slot ⟨some restriction⟩ =
          .ok (index, table') ∧
        index.toNat = (firstSeen (registered items ++ [(slot, restriction)])).idxOf
          restriction.normalize := by
  intro claimed
  have normals : (registered wrappingItems).map (fun entry => entry.2.normalize) =
      (List.range (2 ^ 32)).map repeatedAttribute := by
    rw [registered_wrappingItems, List.map_map]
    simp only [Function.comp_def, normalize_repeatedAttribute]
  have normalsDistinct : ((List.range (2 ^ 32)).map repeatedAttribute).Nodup :=
    List.nodup_range.map repeatedAttribute_injective
  -- the `2 ^ 32` restrictions are all seen, and the one after them is new
  have counted : (firstSeen (registered wrappingItems)).length = 2 ^ 32 := by
    have sized := size_tableOf (registered wrappingItems)
    rw [normals, List.toFinset_card_of_nodup normalsDistinct, List.length_map,
      List.length_range, size_tableOf_eq_length] at sized
    exact sized
  have unseen : (repeatedAttribute (2 ^ 32)).normalize ∉ firstSeen (registered wrappingItems) := by
    rw [mem_firstSeen]
    rintro ⟨entry, member, named⟩
    rw [registered_wrappingItems] at member
    obtain ⟨k, kMember, rfl⟩ := List.mem_map.mp member
    simp only [normalize_repeatedAttribute] at named
    have same := repeatedAttribute_injective named
    have bound := List.mem_range.mp kMember
    omega
  have unregistered : (registered wrappingItems).lookup (Slot.ofIndices 0 1 0) = none := by
    rw [registered_wrappingItems, List.lookup_eq_none_iff]
    intro entry member
    obtain ⟨k, -, rfl⟩ := List.mem_map.mp member
    simp [Slot.ofIndices]
  obtain ⟨index, table', added, position⟩ :=
    claimed wrappingItems (Slot.ofIndices 0 1 0) (repeatedAttribute (2 ^ 32)) unregistered
  have last : (firstSeen (registered wrappingItems ++
      [(Slot.ofIndices 0 1 0, repeatedAttribute (2 ^ 32))])).idxOf
        (repeatedAttribute (2 ^ 32)).normalize = 2 ^ 32 := by
    rw [firstSeen_append, if_neg unseen, List.idxOf_append_of_notMem unseen, List.idxOf_cons_self,
      Nat.add_zero, counted]
  rw [addEach_fresh, add_tableOf, unregistered] at added
  simp only [Except.ok.injEq, Prod.mk.injEq] at added
  rw [last] at position
  rw [← added.1, last] at position
  exact absurd position (by decide)

end ConditionTable

/-! ### Working realm lists that fit 32 bits -/

namespace RealmGraph

open ConditionTable

/-- A working realm list whose condition positions fit 32 bits: no position of a realm, a binding
or a condition reaches `2 ^ 32`, so no two conditions share a slot, and there are at most
`2 ^ 32` restricted conditions, so no condition number wraps. -/
structure Fits32 (graph : RealmGraph) : Prop where
  /-- At most `2 ^ 32` realms. -/
  realms : graph.realms.length ≤ 2 ^ 32
  /-- At most `2 ^ 32` bindings in each realm. -/
  bindings : ∀ realm ∈ graph.realms, realm.bindings.length ≤ 2 ^ 32
  /-- At most `2 ^ 32` conditions in each binding. -/
  conditions : ∀ realm ∈ graph.realms, ∀ binding ∈ realm.bindings,
    binding.conditions.length ≤ 2 ^ 32
  /-- At most `2 ^ 32` restricted conditions in all. -/
  restricted : (graph.slots.filterMap fun item => item.2.restrict).length ≤ 2 ^ 32

namespace Fits32

variable {graph : RealmGraph} (fits : graph.Fits32)
include fits

theorem indices_lt {r b p : Nat} {condition : Condition}
    (located : graph.conditionAt r b p = some condition) :
    r < 2 ^ 32 ∧ b < 2 ^ 32 ∧ p < 2 ^ 32 := by
  obtain ⟨realm, realmFound, binding, bindingFound, conditionFound⟩ :=
    conditionAt_eq_some_iff.mp located
  obtain ⟨realmBound, -⟩ := List.getElem?_eq_some_iff.mp realmFound
  obtain ⟨bindingBound, -⟩ := List.getElem?_eq_some_iff.mp bindingFound
  obtain ⟨conditionBound, -⟩ := List.getElem?_eq_some_iff.mp conditionFound
  have realmMember := List.mem_of_getElem? realmFound
  have bindingMember := List.mem_of_getElem? bindingFound
  exact ⟨Nat.lt_of_lt_of_le realmBound fits.realms,
    Nat.lt_of_lt_of_le bindingBound (fits.bindings realm realmMember),
    Nat.lt_of_lt_of_le conditionBound (fits.conditions realm realmMember binding bindingMember)⟩

/-- No two conditions share a slot. -/
theorem slots_agree : ∀ item ∈ graph.slots, ∀ item' ∈ graph.slots, item.1 = item'.1 →
    item.2 = item'.2 := by
  rintro ⟨slot, condition⟩ member ⟨slot', condition'⟩ member' same
  obtain ⟨r, b, p, rfl, located⟩ := mem_slots.mp member
  obtain ⟨r', b', p', rfl, located'⟩ := mem_slots.mp member'
  obtain ⟨rfl, rfl, rfl⟩ :=
    Slot.ofIndices_inj (fits.indices_lt located) (fits.indices_lt located') same
  exact Option.some_injective _ (located.symm.trans located')

/-- Every condition is registered under its own slot, with its restriction, if it has one. -/
theorem lookup_registered {r b p : Nat} {condition : Condition}
    (located : graph.conditionAt r b p = some condition) :
    (registered graph.slots).lookup (Slot.ofIndices r b p) = condition.restrict := by
  have given : graph.slots.lookup (Slot.ofIndices r b p) = some condition :=
    lookup_eq_of_mem_of_agree fits.slots_agree (mem_slots_of_conditionAt located)
  rw [registered, lookup_foldl_register_of_agree fits.slots_agree, given]
  rfl

/-- No more normal forms are seen than there are restricted conditions. -/
theorem firstSeen_length_le : (firstSeen (registered graph.slots)).length ≤ 2 ^ 32 := by
  have within : firstSeen (registered graph.slots) ⊆
      (graph.slots.filterMap fun item => item.2.restrict).map Restriction.normalize := by
    intro normal member
    obtain ⟨entry, entryMember, rfl⟩ := mem_firstSeen.mp member
    exact List.mem_map_of_mem
      (List.mem_filterMap.mpr ⟨_, mem_of_mem_registered entryMember, rfl⟩)
  calc (firstSeen (registered graph.slots)).length
      ≤ ((graph.slots.filterMap fun item => item.2.restrict).map Restriction.normalize).length :=
        ((nodup_firstSeen _).subperm within).length_le
    _ ≤ 2 ^ 32 := by
        rw [List.length_map]
        exact fits.restricted

/-- Every restricted condition has a final number, and that number picks out the condition's
normal form. -/
theorem exists_index_finalize {r b p : Nat} {condition : Condition} {restriction : Restriction}
    (located : graph.conditionAt r b p = some condition)
    (restricted : condition.restrict = some restriction) :
    ∃ index, (tableOf (registered graph.slots)).finalize.1.index (Slot.ofIndices r b p) =
        .ok index ∧
      (tableOf (registered graph.slots)).finalize.2[index.toNat]? = some restriction.normalize :=
  exists_index_finalize_tableOf fits.firstSeen_length_le
    ((fits.lookup_registered located).trans restricted)

end Fits32

/-- The working realm list fits 32 bits as soon as the declared realms it is built from do: the
sort by name changes no count. -/
theorem build_fits32 {config : Config} {implicit : List Binding}
    (realms : (declaredWithRoot config).length ≤ 2 ^ 32)
    (bindings : ∀ realm ∈ declaredWithRoot config,
      (withImplicit implicit realm).bindings.length ≤ 2 ^ 32)
    (conditions : ∀ realm ∈ declaredWithRoot config,
      ∀ binding ∈ (withImplicit implicit realm).bindings, binding.conditions.length ≤ 2 ^ 32)
    (restricted : (((declaredWithRoot config).map (withImplicit implicit)).flatMap fun realm =>
      realm.bindings.flatMap fun binding => binding.conditions.filterMap (·.restrict)).length ≤
        2 ^ 32) :
    (build config implicit).Fits32 where
  realms := by
    rw [build_realms, List.length_mergeSort, List.length_map]
    exact realms
  bindings realm member := by
    obtain ⟨declared, declaredMember, rfl⟩ := mem_build_realms.mp member
    exact bindings declared declaredMember
  conditions realm member binding bindingMember := by
    obtain ⟨declared, declaredMember, rfl⟩ := mem_build_realms.mp member
    exact conditions declared declaredMember binding bindingMember
  restricted := by
    rw [restrictions_slots, build_realms,
      (List.Perm.flatMap_right _ (List.mergeSort_perm _ _)).length_eq]
    exact restricted

end RealmGraph

end RealmAccess
