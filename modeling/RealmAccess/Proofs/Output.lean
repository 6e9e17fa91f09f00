import RealmAccess.Proofs.Compaction
import RealmAccess.Proofs.ConditionNumbering
import RealmAccess.Proofs.Expand
import RealmAccess.Proofs.ValidExpansion
/-!
# The output of a successful expansion

A successful expansion leaves the condition table that the description of its registrations
gives (`ConditionTable.tableOf`), registering every slot of the working realm list, and a sound
role memo in which every walked grant is numbered (`Config.Outcome`).
From these: the permissions and conditions are strictly increasing, the realms are the working
realms in name order, and the bindings of every realm are in canonical form.
-/

namespace RealmAccess

namespace Config

/-- What a successful expansion leaves behind: the condition table, the walked realms and the
final memo, with the invariants the steps keep. -/
structure Outcome (config : Config) (registry : Registry) (project : String)
    (table : ConditionTable) (entries : List (String × List BindingRecord × Option (List String)))
    (memo : WalkMemo) : Prop where
  described : table =
    ConditionTable.tableOf (ConditionTable.registered (config.workingGraph registry project).slots)
  registered : ∀ item ∈ (config.workingGraph registry project).slots,
    (table.slots.lookup item.1).isSome
  rolesSound : memo.roles.Sound ⟨registry, config.customRoles⟩
  expands : List.Forall₂ ((config.walkerOf registry project table.finalize.1).Expands
    memo.roles.table) (config.workingGraph registry project).realms entries
  numbered : ∀ permission ∈ memo.roles.table.names,
    ∃ realm ∈ (config.workingGraph registry project).realms, ∃ binding ∈ realm.bindings,
      RoleSource.Grants ⟨registry, config.customRoles⟩ binding.role permission

variable {config : Config} {registry : Registry} {project : String}

/-- A successful expansion, with what it was built from. -/
theorem expandUnchecked_outcome {out : Expansion}
    (expanded : config.expandUnchecked registry project = .ok out) :
    ∃ table entries memo, config.Outcome registry project table entries memo ∧
      out = { permissions := memo.roles.table.sorted.names
              conditions := table.finalize.2
              realms := entries.map (RealmRecord.ofEntry project memo.roles.table.sorted) } := by
  obtain ⟨table, entries, memo, registered, walked, rfl⟩ := expandUnchecked_inv expanded
  obtain ⟨allRegistered, -⟩ := ConditionTable.addAll_registers registered
  obtain ⟨rolesSound, -, -, expands, numbersGranted⟩ :=
    Walker.expandRealms_spec _ (RoleMemo.sound_empty _) (fun _ member => by cases member) walked
  -- the walks start from an empty table, so every numbered permission is granted by a binding
  have numbered : ∀ permission ∈ memo.roles.table.names,
      ∃ realm ∈ (config.workingGraph registry project).realms, ∃ binding ∈ realm.bindings,
        RoleSource.Grants ⟨registry, config.customRoles⟩ binding.role permission := by
    intro permission member
    rcases numbersGranted permission member with before | granted
    · cases before
    · exact granted
  exact ⟨table, entries, memo, ⟨ConditionTable.addAll_fresh registered, allRegistered, rolesSound, expands, numbered⟩, rfl⟩

variable {table : ConditionTable} {entries : List (String × List BindingRecord × Option (List String))}
  {memo : WalkMemo}

theorem Outcome.conditions_nodup (outcome : config.Outcome registry project table entries memo) :
    table.conditions.Nodup := by
  rw [outcome.described]
  exact ConditionTable.nodup_firstSeen _

theorem Outcome.numbers_lt (outcome : config.Outcome registry project table entries memo) :
    ∀ entry ∈ table.slots, entry.2.toNat < table.conditions.length := by
  rw [outcome.described]
  exact ConditionTable.numbers_lt_tableOf

section Fits32

variable (outcome : config.Outcome registry project table entries memo)
  (fits : (config.workingGraph registry project).Fits32) {r b p : Nat} {condition : Condition}
  (located : (config.workingGraph registry project).conditionAt r b p = some condition)
include outcome fits located

/-- In a working realm list that fits 32 bits, a condition with a restriction has a final
number, and that number picks out the restriction's normal form. -/
theorem Outcome.exists_index {restriction : Restriction}
    (restricted : condition.restrict = some restriction) :
    ∃ index, table.finalize.1.index (Slot.ofIndices r b p) = .ok index ∧
      table.finalize.2[index.toNat]? = some restriction.normalize := by
  rw [outcome.described]
  exact fits.exists_index_finalize located restricted

/-- In a working realm list that fits 32 bits, a condition whose slot has a final number has a
restriction, whose normal form the number picks out. -/
theorem Outcome.getElem?_index {index : UInt32}
    (indexOk : table.finalize.1.index (Slot.ofIndices r b p) = .ok index) :
    ∃ restriction, condition.restrict = some restriction ∧
      table.finalize.2[index.toNat]? = some restriction.normalize := by
  cases restricted : condition.restrict with
  | none =>
      -- an unrestricted condition registers nothing, so its slot has no number
      have unregistered := (fits.lookup_registered located).trans restricted
      rw [outcome.described, ConditionTable.index_finalize_of_lookup_none unregistered] at indexOk
      cases indexOk
  | some restriction =>
      obtain ⟨index', indexOk', found⟩ := outcome.exists_index fits located restricted
      rw [indexOk'] at indexOk
      cases indexOk
      exact ⟨restriction, rfl, found⟩

end Fits32

/-- A walked grant has its permissions numbered in the memo and its conditions numbered,
strictly increasing, among the finalized conditions. -/
theorem Outcome.gives_shape (outcome : config.Outcome registry project table entries memo)
    {r : Nat} {grant : Grant}
    (given : (config.walkerOf registry project table.finalize.1).Gives memo.roles.table r grant) :
    (∀ i ∈ grant.permissions, i < memo.roles.table.size) ∧ grant.conditions.SortedLT ∧
      ∀ j ∈ grant.conditions, j < table.finalize.2.length := by
  obtain ⟨realm, -, b, binding, -, grantOf⟩ := given
  obtain ⟨increasing, numbered⟩ := ConditionIndex.indexes_spec grantOf.conditions
  refine ⟨grantOf.permissions.inRange, increasing, fun j listed => ?_⟩
  obtain ⟨slot, -, index, found, rfl⟩ := (numbered j).mp listed
  exact ConditionTable.lt_of_index_finalize outcome.numbers_lt found

/-- The bindings of every walked realm are in canonical form. -/
theorem Outcome.canonical (outcome : config.Outcome registry project table entries memo)
    {entry : String × List BindingRecord × Option (List String)} (member : entry ∈ entries) :
    CanonicalBindings memo.roles.table.sorted.names.length table.finalize.2.length
      (BindingRecord.renumberAll memo.roles.table.sorted entry.2.1) := by
  obtain ⟨realm, -, expands⟩ := exists_of_forall₂_right outcome.expands member
  obtain ⟨r, grants, -, compacted, given, -⟩ := expands.walked
  have shaped : ∀ grant ∈ grants, (∀ i ∈ grant.permissions, i < memo.roles.table.size) ∧
      grant.conditions.SortedLT ∧ ∀ j ∈ grant.conditions, j < table.finalize.2.length := by
    intro grant grantMember
    obtain ⟨r', -, gives⟩ := given grant grantMember
    exact outcome.gives_shape gives
  rw [compacted]
  exact canonical_renumberAll outcome.rolesSound.distinct
    (compacted_compact (fun grant member => (shaped grant member).1)
      (fun grant member => (shaped grant member).2.1)
      (fun grant member => (shaped grant member).2.2))

/-! ### The parts of the output -/

variable {out : Expansion}

theorem expansion_permissions_sortedLT (expanded : config.expandUnchecked registry project = .ok out) :
    out.permissions.SortedLT := by
  obtain ⟨table, entries, memo, outcome, rfl⟩ := expandUnchecked_outcome expanded
  exact NameTable.sorted_names_sortedLT outcome.rolesSound.distinct

theorem expansion_conditions_sortedLT (expanded : config.expandUnchecked registry project = .ok out) :
    (out.conditions.map Restriction.key).SortedLT ∧
      ∀ condition ∈ out.conditions, condition.values.SortedLT := by
  obtain ⟨table, entries, memo, outcome, rfl⟩ := expandUnchecked_outcome expanded
  refine ⟨ConditionTable.finalize_conditions_sortedLT outcome.conditions_nodup,
    fun condition member => ?_⟩
  rw [outcome.described] at member
  exact ConditionTable.values_sortedLT_of_mem_tableOf
    (ConditionTable.mem_finalize_conditions.mp member)

/-- The expanded realms are the working realms, in order, named after the project. -/
theorem expansion_realm_names (expanded : config.expandUnchecked registry project = .ok out) :
    out.realms.map (·.name) =
      (config.workingGraph registry project).names.map (project ++ ":" ++ ·) := by
  obtain ⟨table, entries, memo, outcome, rfl⟩ := expandUnchecked_outcome expanded
  have named : entries.map (·.1) = (config.workingGraph registry project).names :=
    (map_eq_of_forall₂ outcome.expands fun _ _ expands => expands.name.symm).symm
  show (entries.map (RealmRecord.ofEntry project memo.roles.table.sorted)).map (·.name) = _
  rw [← named, List.map_map, List.map_map]
  rfl

theorem expansion_bindings_canonical (expanded : config.expandUnchecked registry project = .ok out) :
    ∀ record ∈ out.realms,
      CanonicalBindings out.permissions.length out.conditions.length record.bindings := by
  obtain ⟨table, entries, memo, outcome, rfl⟩ := expandUnchecked_outcome expanded
  intro record member
  obtain ⟨entry, entryMember, rfl⟩ := List.mem_map.mp member
  exact outcome.canonical entryMember

end Config

/-! ## Every expansion is in canonical form

Whatever the configuration, checked or not, a successful expansion lists its permissions
strictly increasing, its conditions strictly increasing by attribute and values with their
values strictly increasing, one realm per working realm name in name order, and the bindings of
every realm in canonical form (`CanonicalBindings`).
-/

theorem expansion_is_canonical {config : Config} {registry : Registry} {project : String}
    {out : Expansion} (expanded : config.expandUnchecked registry project = .ok out) :
    out.permissions.SortedLT ∧
      (out.conditions.map Restriction.key).SortedLT ∧
      (∀ condition ∈ out.conditions, condition.values.SortedLT) ∧
      (∃ names : List String, names.SortedLT ∧
        (∀ name, name ∈ names ↔ name ∈ config.realms.map (·.name) ∨ name = rootRealm) ∧
        out.realms.map (·.name) = names.map (project ++ ":" ++ ·)) ∧
      ∀ record ∈ out.realms,
        CanonicalBindings out.permissions.length out.conditions.length record.bindings := by
  obtain ⟨conditionsSorted, valuesSorted⟩ := Config.expansion_conditions_sortedLT expanded
  refine ⟨Config.expansion_permissions_sortedLT expanded, conditionsSorted, valuesSorted,
    ⟨(config.workingGraph registry project).names, ?_, fun name => ?_,
      Config.expansion_realm_names expanded⟩, Config.expansion_bindings_canonical expanded⟩
  · exact RealmGraph.build_names_sortedLT config (registry.implicitFor project)
  · exact RealmGraph.mem_build_names

theorem sampleConfig_expansion_is_canonical :
    ∃ out, sampleConfig.expandUnchecked sampleRegistry "demo" = .ok out ∧
      out.permissions.SortedLT ∧
      (out.conditions.map Restriction.key).SortedLT ∧
      (∀ condition ∈ out.conditions, condition.values.SortedLT) ∧
      (∃ names : List String, names.SortedLT ∧
        (∀ name, name ∈ names ↔ name ∈ sampleConfig.realms.map (·.name) ∨ name = rootRealm) ∧
        out.realms.map (·.name) = names.map ("demo" ++ ":" ++ ·)) ∧
      ∀ record ∈ out.realms,
        CanonicalBindings out.permissions.length out.conditions.length record.bindings := by
  obtain ⟨out, expanded⟩ := (Config.checked_of_validate sampleConfig_valid).expandUnchecked_ok
    sampleConfig_implicitRolesKnown
  exact ⟨out, expanded, expansion_is_canonical expanded⟩

end RealmAccess
