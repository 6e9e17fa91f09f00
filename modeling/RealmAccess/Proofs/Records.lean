import RealmAccess.Proofs.GrantPreservation
import RealmAccess.Proofs.Tables
/-!
# The records of an expansion, read off the configuration

The expansion of a checked configuration holds, for each working realm in name order, one
record: its grants and members are those a direct reading of the configuration gives
(`Config.directGrants`, `Config.directMembers`), and its services are those that enforce the
realm. The permission and condition lists hold what the declared bindings name. A successful
expansion also resolved the role of each implicit root binding, so those roles are known.
-/

namespace RealmAccess

namespace Config

variable {config : Config} {registry : Registry} {project : String}

/-- Who a realm admits by a direct reading of the configuration: every principal of every binding
declared by a realm it inherits from, under the normal forms of the binding's conditions. -/
def directMembers (config : Config) (registry : Registry) (project name : String) :
    Set (String × Set Restriction) :=
  { member | ∃ ancestor binding, config.InheritsFrom name ancestor ∧
      config.DeclaresBinding registry project ancestor binding ∧
      member.1 ∈ binding.principals ∧ member.2 = binding.normalConditions }

variable {table : ConditionTable}
  {entries : List (String × List BindingRecord × Option (List String))} {memo : WalkMemo}

/-- The members of a walked realm of a checked configuration whose working realm list fits 32 bits
are its direct members. -/
theorem Outcome.members_eq (outcome : config.Outcome registry project table entries memo)
    (fits : (config.workingGraph registry project).Fits32) (checked : config.Checked registry)
    {realm : Realm}
    {entry : String × List BindingRecord × Option (List String)}
    (expands : (config.walkerOf registry project table.finalize.1).Expands memo.roles.table
      realm entry)
    {r : Nat} (positioned : (config.workingGraph registry project).position realm.name = .ok r)
    {realms : List RealmRecord} :
    Expansion.members ⟨memo.roles.table.sorted.names, table.finalize.2, realms⟩
        (RealmRecord.ofEntry project memo.roles.table.sorted entry) =
      config.directMembers registry project realm.name := by
  have named := (RealmGraph.position_eq_ok_iff Config.workingGraph_names_nodup).mp positioned
  ext ⟨principal, conditions⟩
  rw [outcome.mem_members fits expands positioned]
  exact checked.exists_reach_binding_iff named fun binding =>
    principal ∈ binding.principals ∧ conditions = binding.normalConditions

/-- What the record of the realm `realmName` holds in the expansion `out`: the realm's name under
the project, its direct grants and members, and the services that enforce it. -/
structure Recorded (config : Config) (registry : Registry) (project : String) (out : Expansion)
    (realmName : String) (record : RealmRecord) : Prop where
  named : record.name = project ++ ":" ++ realmName
  grants : out.grants record = config.directGrants registry project realmName
  members : out.members record = config.directMembers registry project realmName
  services : (config.workingGraph registry project).ServicesOf realmName record.services

variable {out : Expansion}

namespace Checked

variable (checked : config.Checked registry)
include checked

/-- The records of the expansion, realm by realm in name order, when the working realm list fits
32 bits. -/
theorem expansion_records (expanded : config.expandUnchecked registry project = .ok out)
    (fits : (config.workingGraph registry project).Fits32) :
    List.Forall₂ (config.Recorded registry project out) (config.workingGraph registry project).names
      out.realms := by
  obtain ⟨table, entries, memo, outcome, rfl⟩ := expandUnchecked_outcome expanded
  show List.Forall₂ _ ((config.workingGraph registry project).realms.map (·.name)) _
  rw [List.forall₂_map_left_iff, List.forall₂_map_right_iff]
  refine List.Forall₂.imp (fun realm entry expands => ?_) outcome.expands
  obtain ⟨r, -, positioned, -⟩ := expands.walked
  refine ⟨?_, outcome.grants_eq fits checked expands positioned,
    outcome.members_eq fits checked expands positioned, expands.services⟩
  show project ++ ":" ++ entry.1 = _
  rw [expands.name]

/-- A successful expansion resolved the role of each implicit root binding: the walk from the
root covers the binding, which names the project as its principal. -/
theorem implicitRolesKnown_of_expansion
    (expanded : config.expandUnchecked registry project = .ok out) :
    config.ImplicitRolesKnown registry project := by
  intro external role implicit
  obtain ⟨table, entries, memo, outcome, -⟩ := expandUnchecked_outcome expanded
  have rootWorking : rootRealm ∈ (config.workingGraph registry project).realms.map (·.name) :=
    RealmGraph.mem_build_names.mpr (Or.inr rfl)
  obtain ⟨root, rootMember, rootNamed⟩ := List.mem_map.mp rootWorking
  have bound :
      ({ role := role, principals := ["project:" ++ project] } : Binding) ∈ root.bindings :=
    (checked.mem_working_bindings rootMember).mpr
      (Or.inr ⟨rootNamed, external, role, implicit, rfl⟩)
  obtain ⟨entry, -, expands⟩ := exists_of_forall₂_left outcome.expands rootMember
  obtain ⟨r, grants, positioned, -, -, covered⟩ := expands.walked
  obtain ⟨r', positioned', found⟩ := workingGraph_realm_at rootMember
  have same : r' = r := Except.ok.inj (positioned'.symm.trans positioned)
  rw [same] at found
  obtain ⟨b, inRange, bindingAt⟩ := List.getElem_of_mem bound
  obtain ⟨grant, -, -, grantOf⟩ := covered r .refl root found b _
    (List.getElem?_eq_some_iff.mpr ⟨inRange, bindingAt⟩) ("project:" ++ project)
    (List.mem_singleton_self _)
  exact grantOf.known

/-- The bindings of the working realms are the bindings the configuration declares. -/
theorem exists_working_binding_iff (holds : Binding → Prop) :
    (∃ realm ∈ (config.workingGraph registry project).realms, ∃ binding ∈ realm.bindings,
      holds binding) ↔
      ∃ name binding, config.DeclaresBinding registry project name binding ∧ holds binding := by
  constructor
  · rintro ⟨realm, working, binding, listed, held⟩
    exact ⟨realm.name, binding, (checked.mem_working_bindings working).mp listed, held⟩
  · rintro ⟨name, binding, declared, held⟩
    have named : name ∈ (config.workingGraph registry project).realms.map (·.name) :=
      mem_workingGraph_names_of_declares declared
    obtain ⟨realm, working, rfl⟩ := List.mem_map.mp named
    exact ⟨realm, working, binding, (checked.mem_working_bindings working).mpr declared, held⟩

/-- The permissions of an expansion are those the roles of the declared bindings grant. -/
theorem expansion_mem_permissions (expanded : config.expandUnchecked registry project = .ok out)
    {permission : String} :
    permission ∈ out.permissions ↔
      ∃ name binding, config.DeclaresBinding registry project name binding ∧
        RoleSource.Grants ⟨registry, config.customRoles⟩ binding.role permission :=
  (Config.expansion_mem_permissions expanded).trans (checked.exists_working_binding_iff _)

/-- The conditions of an expansion are the normal forms of the declared bindings' conditions, when
the working realm list fits 32 bits. -/
theorem expansion_mem_conditions (expanded : config.expandUnchecked registry project = .ok out)
    (fits : (config.workingGraph registry project).Fits32) {normal : Restriction} :
    normal ∈ out.conditions ↔
      ∃ name binding, config.DeclaresBinding registry project name binding ∧
        normal ∈ binding.normalConditions :=
  (Config.expansion_mem_conditions expanded fits).trans
    (checked.exists_working_binding_iff fun binding => normal ∈ binding.normalConditions)

end Checked

end Config

end RealmAccess
