import Mathlib.Data.List.Nodup
import RealmAccess.Expansion
/-!
# Grouping values by key

`addToEntry` joins values under their key in an association list, keys in first-seen order.
Folding it over a list of keyed values groups them: the result has one entry per key that
occurs, and each entry holds exactly the values listed under its key. `GroupsOf` states this
of a partial result, and one fold step keeps it.
-/

namespace RealmAccess

variable {κ ν : Type} [DecidableEq κ]

/-- Joins the values of equal keys, keys in first-seen order. -/
def groupAll (items : List (κ × List ν)) : List (κ × List ν) :=
  items.foldl (fun entries item => addToEntry entries item.1 item.2) []

/-- `entries` groups `items`: one entry per key that occurs in `items`, holding exactly the
values listed under that key. -/
structure GroupsOf (entries items : List (κ × List ν)) : Prop where
  distinct : (entries.map (·.1)).Nodup
  keys : ∀ key, key ∈ entries.map (·.1) ↔ ∃ item ∈ items, item.1 = key
  values : ∀ entry ∈ entries, ∀ value, value ∈ entry.2 ↔
    ∃ item ∈ items, item.1 = entry.1 ∧ value ∈ item.2

omit [DecidableEq κ] in
theorem groupsOf_nil : GroupsOf ([] : List (κ × List ν)) [] where
  distinct := List.nodup_nil
  keys _ := by simp
  values _ member := nomatch member

theorem addToEntry_of_present {entries : List (κ × List ν)} {key : κ} (values : List ν)
    (present : key ∈ entries.map (·.1)) :
    addToEntry entries key values =
      entries.map fun entry => if entry.1 = key then (entry.1, entry.2 ++ values) else entry := by
  have found : entries.any (·.1 = key) = true := by
    obtain ⟨entry, member, named⟩ := List.mem_map.mp present
    exact List.any_eq_true.mpr ⟨entry, member, decide_eq_true named⟩
  unfold addToEntry
  rw [if_pos found]

theorem addToEntry_of_absent {entries : List (κ × List ν)} {key : κ} (values : List ν)
    (absent : key ∉ entries.map (·.1)) :
    addToEntry entries key values = entries ++ [(key, values)] := by
  have missing : entries.any (·.1 = key) = false := by
    rw [Bool.eq_false_iff]
    intro found
    obtain ⟨entry, member, named⟩ := List.any_eq_true.mp found
    exact absent (List.mem_map.mpr ⟨entry, member, of_decide_eq_true named⟩)
  unfold addToEntry
  rw [if_neg (by rw [missing]; exact Bool.false_ne_true)]

/-- One more keyed value joins the entry of its key, or starts one. -/
theorem GroupsOf.addToEntry {entries items : List (κ × List ν)} (grouped : GroupsOf entries items)
    (key : κ) (values : List ν) :
    GroupsOf (addToEntry entries key values) (items ++ [(key, values)]) := by
  have newKeys : ∀ k, (∃ item ∈ items ++ [(key, values)], item.1 = k) ↔
      (∃ item ∈ items, item.1 = k) ∨ k = key := by
    intro k
    simp only [List.mem_append, List.mem_singleton]
    constructor
    · rintro ⟨item, old | rfl, named⟩
      · exact Or.inl ⟨item, old, named⟩
      · exact Or.inr named.symm
    · rintro (⟨item, old, named⟩ | rfl)
      · exact ⟨item, Or.inl old, named⟩
      · exact ⟨(k, values), Or.inr rfl, rfl⟩
  by_cases present : key ∈ entries.map (·.1)
  · rw [addToEntry_of_present values present]
    have sameKeys : (entries.map fun entry => if entry.1 = key then (entry.1, entry.2 ++ values)
        else entry).map (·.1) = entries.map (·.1) := by
      rw [List.map_map]
      congr 1
      funext entry
      by_cases named : entry.1 = key <;> simp [named]
    refine ⟨?_, ?_, ?_⟩
    · rw [sameKeys]
      exact grouped.distinct
    · intro k
      rw [sameKeys, newKeys, grouped.keys k]
      constructor
      · exact Or.inl
      · rintro (old | rfl)
        · exact old
        · exact (grouped.keys k).mp present
    · intro entry member value
      obtain ⟨old, oldMember, rfl⟩ := List.mem_map.mp member
      by_cases named : old.1 = key
      · rw [if_pos named]
        show value ∈ old.2 ++ values ↔ ∃ item ∈ items ++ [(key, values)], item.1 = old.1 ∧ value ∈ item.2
        rw [List.mem_append, grouped.values old oldMember value]
        constructor
        · rintro (⟨item, itemMember, itemNamed, listed⟩ | added)
          · exact ⟨item, List.mem_append_left _ itemMember, itemNamed, listed⟩
          · exact ⟨(key, values), List.mem_append_right _ (List.mem_singleton_self _), named.symm,
              added⟩
        · rintro ⟨item, itemMember, itemNamed, listed⟩
          rcases List.mem_append.mp itemMember with old' | single
          · exact Or.inl ⟨item, old', itemNamed, listed⟩
          · rw [List.mem_singleton.mp single] at listed
            exact Or.inr listed
      · rw [if_neg named, grouped.values old oldMember value]
        constructor
        · rintro ⟨item, itemMember, itemNamed, listed⟩
          exact ⟨item, List.mem_append_left _ itemMember, itemNamed, listed⟩
        · rintro ⟨item, itemMember, itemNamed, listed⟩
          rcases List.mem_append.mp itemMember with old' | single
          · exact ⟨item, old', itemNamed, listed⟩
          · rw [List.mem_singleton.mp single] at itemNamed
            exact absurd itemNamed.symm named
  · rw [addToEntry_of_absent values present]
    have noItem : ∀ item ∈ items, item.1 ≠ key :=
      fun item member named => present ((grouped.keys key).mpr ⟨item, member, named⟩)
    refine ⟨?_, ?_, ?_⟩
    · rw [List.map_append, List.nodup_append]
      refine ⟨grouped.distinct, List.nodup_singleton _, ?_⟩
      intro k member k' single same
      rw [List.map_singleton, List.mem_singleton] at single
      rw [same, single] at member
      exact present member
    · intro k
      rw [List.map_append, List.mem_append, grouped.keys k, newKeys, List.map_singleton,
        List.mem_singleton]
    · intro entry member value
      rcases List.mem_append.mp member with old | single
      · have entryNamed : entry.1 ≠ key := fun named => present (List.mem_map.mpr ⟨entry, old, named⟩)
        rw [grouped.values entry old value]
        constructor
        · rintro ⟨item, itemMember, itemNamed, listed⟩
          exact ⟨item, List.mem_append_left _ itemMember, itemNamed, listed⟩
        · rintro ⟨item, itemMember, itemNamed, listed⟩
          rcases List.mem_append.mp itemMember with old' | single'
          · exact ⟨item, old', itemNamed, listed⟩
          · rw [List.mem_singleton.mp single'] at itemNamed
            exact absurd itemNamed.symm entryNamed
      · rw [List.mem_singleton.mp single]
        constructor
        · intro listed
          exact ⟨(key, values), List.mem_append_right _ (List.mem_singleton_self _), rfl, listed⟩
        · rintro ⟨item, itemMember, itemNamed, listed⟩
          rcases List.mem_append.mp itemMember with old' | single'
          · exact absurd itemNamed (noItem item old')
          · rw [List.mem_singleton.mp single'] at listed
            exact listed

theorem groupsOf_foldl : ∀ (items : List (κ × List ν)) {entries done : List (κ × List ν)},
    GroupsOf entries done →
      GroupsOf (items.foldl (fun entries item => addToEntry entries item.1 item.2) entries)
        (done ++ items)
  | [], _, done, grouped => by
      rw [List.foldl_nil, List.append_nil]
      exact grouped
  | item :: more, _, done, grouped => by
      rw [List.foldl_cons]
      have later := groupsOf_foldl more (grouped.addToEntry item.1 item.2)
      rwa [List.append_assoc, List.singleton_append] at later

theorem groupsOf_groupAll (items : List (κ × List ν)) : GroupsOf (groupAll items) items := by
  have grouped := groupsOf_foldl items (@groupsOf_nil κ ν)
  rwa [List.nil_append] at grouped

section Entries

variable {entries items : List (κ × List ν)}

omit [DecidableEq κ]

theorem GroupsOf.key_of_mem (grouped : GroupsOf entries items) {entry : κ × List ν}
    (member : entry ∈ entries) : ∃ item ∈ items, item.1 = entry.1 :=
  (grouped.keys entry.1).mp (List.mem_map_of_mem member)

theorem GroupsOf.entry_of_item (grouped : GroupsOf entries items) {item : κ × List ν}
    (member : item ∈ items) : ∃ entry ∈ entries, entry.1 = item.1 := by
  obtain ⟨entry, entryMember, named⟩ :=
    List.mem_map.mp ((grouped.keys item.1).mpr ⟨item, member, rfl⟩)
  exact ⟨entry, entryMember, named⟩

theorem GroupsOf.eq_of_key (grouped : GroupsOf entries items) {a b : κ × List ν}
    (aMember : a ∈ entries) (bMember : b ∈ entries) (same : a.1 = b.1) : a = b :=
  List.inj_on_of_nodup_map grouped.distinct aMember bMember same

end Entries

end RealmAccess
