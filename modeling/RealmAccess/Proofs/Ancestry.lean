import RealmAccess.Proofs.Acceptance
import RealmAccess.Proofs.Acyclic
import RealmAccess.Proofs.Expand
/-!
# Inheritance between declared realms

A realm takes the bindings of itself, of every realm it extends, transitively, and of the root
(`Config.InheritsFrom`); the root of a project other than the internal one also binds each
implicit root role to the project (`Config.DeclaresBinding`). For a configuration that passes
validation the working realm graph follows these declarations: each working realm extends what
its declaration extends and binds what its declaration binds, and one working realm reaches
another exactly when it inherits from it.
-/

namespace RealmAccess

theorem RealmGraph.exists_realm_of_names {graph : RealmGraph} {r : Nat} {name : String}
    (named : graph.names[r]? = some name) :
    ∃ realm, graph.realms[r]? = some realm ∧ realm.name = name := by
  rw [RealmGraph.getElem?_names, Option.map_eq_some_iff] at named
  exact named

theorem RealmGraph.eq_of_names {graph : RealmGraph} (distinct : graph.names.Nodup) {r r' : Nat}
    {name : String} (named : graph.names[r]? = some name)
    (named' : graph.names[r']? = some name) : r = r' := by
  have positioned := (RealmGraph.position_eq_ok_iff distinct).mpr named
  rw [(RealmGraph.position_eq_ok_iff distinct).mpr named'] at positioned
  exact (Except.ok.inj positioned).symm

namespace Config

/-- A declared realm of name `child` lists `parent` among the realms it extends. -/
def ExtendsRealm (config : Config) (child parent : String) : Prop :=
  ∃ realm ∈ config.realms, realm.name = child ∧ parent ∈ realm.parents

/-- The realms a realm takes bindings from: itself, what it extends transitively, and the
root unless it is the root. -/
def InheritsFrom (config : Config) (name ancestor : String) : Prop :=
  Relation.ReflTransGen config.ExtendsRealm name ancestor ∨
    (name ≠ rootRealm ∧ ancestor = rootRealm)

/-- The bindings a realm name declares: those of the declared realm of that name and, on the
root of a project other than the internal one, one binding of each implicit root role to the
project. -/
def DeclaresBinding (config : Config) (registry : Registry) (project name : String)
    (binding : Binding) : Prop :=
  (∃ realm ∈ config.realms, realm.name = name ∧ binding ∈ realm.bindings) ∨
    (name = rootRealm ∧ project ≠ internalProject ∧
      ∃ role ∈ registry.implicitRootRoles,
        binding = { role := role, principals := ["project:" ++ project] })

variable {config : Config} {registry : Registry} {project : String}

theorem mem_implicitFor {binding : Binding} :
    binding ∈ registry.implicitFor project ↔
      project ≠ internalProject ∧ ∃ role ∈ registry.implicitRootRoles,
        binding = { role := role, principals := ["project:" ++ project] } := by
  unfold Registry.implicitFor Registry.implicitBindings
  split
  · next internal => simp [internal]
  · next external =>
      simp only [List.mem_map, ne_eq, external, not_false_eq_true, true_and]
      constructor
      · rintro ⟨role, member, rfl⟩
        exact ⟨role, member, rfl⟩
      · rintro ⟨role, member, rfl⟩
        exact ⟨role, member, rfl⟩

theorem mem_workingGraph_names_of_declares {name : String} {binding : Binding}
    (declared : config.DeclaresBinding registry project name binding) :
    name ∈ (config.workingGraph registry project).names := by
  apply RealmGraph.mem_build_names.mpr
  rcases declared with ⟨realm, member, rfl, -⟩ | ⟨rfl, -⟩
  · exact Or.inl (List.mem_map_of_mem member)
  · exact Or.inr rfl

theorem workingGraph_names_nodup : (config.workingGraph registry project).names.Nodup :=
  (RealmGraph.build_names_sortedLT config (registry.implicitFor project)).nodup

theorem not_root_of_nameStep {child parent : String}
    (step : (config.workingGraph registry project).NameStep child parent) : child ≠ rootRealm := by
  obtain ⟨realm, found, listed⟩ := step
  obtain ⟨-, rfl⟩ := (RealmGraph.realm?_eq_some_iff workingGraph_names_nodup).mp found
  exact (RealmGraph.mem_parentNames.mp listed).1

theorem nameStep_of_step {r r' : Nat}
    (step : (config.workingGraph registry project).Step r r') :
    (config.workingGraph registry project).NameStep
      (((config.workingGraph registry project).names[r]?).getD "")
      (((config.workingGraph registry project).names[r']?).getD "") := by
  obtain ⟨realm, parents, found, positions, listed⟩ := step
  obtain ⟨parent, parentListed, positioned⟩ :=
    (RealmGraph.mem_parentPositions positions).mp listed
  rw [(RealmGraph.position_eq_ok_iff workingGraph_names_nodup).mp positioned,
    RealmGraph.getElem?_names, found]
  refine ⟨realm, (RealmGraph.realm?_eq_some_iff workingGraph_names_nodup).mpr
    ⟨List.mem_of_getElem? found, rfl⟩, parentListed⟩

/-! ### The working realms of a checked configuration -/

namespace Checked

variable (checked : config.Checked registry)
include checked

theorem not_extendsRealm_root (parent : String) : ¬ config.ExtendsRealm rootRealm parent := by
  rintro ⟨realm, member, named, listed⟩
  rw [checked.rootExtendsNothing realm member named] at listed
  cases listed

theorem eq_root_of_chain {ancestor : String}
    (chain : Relation.ReflTransGen config.ExtendsRealm rootRealm ancestor) :
    ancestor = rootRealm := by
  rcases Relation.ReflTransGen.cases_head chain with same | ⟨parent, extended, -⟩
  · exact same.symm
  · exact absurd extended (checked.not_extendsRealm_root parent)

theorem mem_workingGraph_names_of_extends {child parent : String}
    (extended : config.ExtendsRealm child parent) :
    parent ∈ (config.workingGraph registry project).names := by
  obtain ⟨realm, member, -, listed⟩ := extended
  apply RealmGraph.mem_build_names.mpr
  rcases checked.parentsDeclared realm member parent listed with isRoot | declared
  · exact Or.inr isRoot
  · exact Or.inl declared

/-- A working realm is a declared realm, or the root when none is declared, with the implicit
root bindings added. -/
theorem mem_workingGraph_realms {realm : Realm} :
    realm ∈ (config.workingGraph registry project).realms ↔
      (∃ declared ∈ config.realms,
          realm = RealmGraph.withImplicit (registry.implicitFor project) declared) ∨
        (rootRealm ∉ config.realms.map (·.name) ∧
          realm = RealmGraph.withImplicit (registry.implicitFor project) { name := rootRealm }) := by
  unfold workingGraph
  rw [RealmGraph.mem_build_realms]
  unfold RealmGraph.declaredWithRoot
  rw [lastOfEachName_of_nodup checked.realmNames]
  split
  · next present =>
      have rootDeclared : rootRealm ∈ config.realms.map (·.name) := by
        obtain ⟨root, rootMember, named⟩ := List.any_eq_true.mp present
        exact List.mem_map.mpr ⟨root, rootMember, beq_iff_eq.mp named⟩
      constructor
      · exact Or.inl
      · rintro (declared | ⟨absent, -⟩)
        · exact declared
        · exact absurd rootDeclared absent
  · next absent =>
      have rootAbsent : rootRealm ∉ config.realms.map (·.name) := by
        intro rootDeclared
        obtain ⟨root, rootMember, named⟩ := List.mem_map.mp rootDeclared
        exact absent (List.any_eq_true.mpr ⟨root, rootMember, beq_iff_eq.mpr named⟩)
      simp only [List.mem_append, List.mem_singleton]
      constructor
      · rintro ⟨declared, member | rfl, rfl⟩
        · exact Or.inl ⟨declared, member, rfl⟩
        · exact Or.inr ⟨rootAbsent, rfl⟩
      · rintro (⟨declared, member, rfl⟩ | ⟨-, rfl⟩)
        · exact ⟨declared, Or.inl member, rfl⟩
        · exact ⟨_, Or.inr rfl, rfl⟩

/-- A working realm extends exactly what its declaration extends. -/
theorem mem_working_parents {realm : Realm}
    (working : realm ∈ (config.workingGraph registry project).realms) {parent : String} :
    parent ∈ realm.parents ↔ config.ExtendsRealm realm.name parent := by
  rcases (checked.mem_workingGraph_realms).mp working with ⟨declared, member, rfl⟩ | ⟨absent, rfl⟩
  · simp only [RealmGraph.withImplicit_parents, RealmGraph.withImplicit_name]
    constructor
    · intro listed
      exact ⟨declared, member, rfl, listed⟩
    · rintro ⟨other, otherMember, named, listed⟩
      rwa [← List.inj_on_of_nodup_map checked.realmNames otherMember member named]
  · simp only [RealmGraph.withImplicit_parents, RealmGraph.withImplicit_name, List.not_mem_nil,
      false_iff]
    rintro ⟨other, otherMember, named, -⟩
    exact absent (List.mem_map.mpr ⟨other, otherMember, named⟩)

/-- A working realm binds exactly what its name declares. -/
theorem mem_working_bindings {realm : Realm}
    (working : realm ∈ (config.workingGraph registry project).realms) {binding : Binding} :
    binding ∈ realm.bindings ↔ config.DeclaresBinding registry project realm.name binding := by
  unfold DeclaresBinding
  rcases (checked.mem_workingGraph_realms).mp working with ⟨declared, member, rfl⟩ | ⟨absent, rfl⟩
  · rw [RealmGraph.withImplicit_bindings, RealmGraph.withImplicit_name, List.mem_append]
    apply or_congr
    · constructor
      · intro listed
        exact ⟨declared, member, rfl, listed⟩
      · rintro ⟨other, otherMember, named, listed⟩
        rwa [← List.inj_on_of_nodup_map checked.realmNames otherMember member named]
    · split
      · next isRoot => rw [mem_implicitFor]; simp [isRoot]
      · next notRoot => simp [notRoot]
  · simp only [RealmGraph.withImplicit_bindings, RealmGraph.withImplicit_name, if_true,
      List.nil_append, mem_implicitFor, true_and]
    constructor
    · exact Or.inr
    · rintro (⟨other, otherMember, named, -⟩ | implicit)
      · exact absurd (List.mem_map.mpr ⟨other, otherMember, named⟩) absent
      · exact implicit

/-! ### Reaching a realm is inheriting from it -/

/-- One edge of the working graph is one declared extends, or the way of a realm other than the
root to the root. -/
theorem step_iff {r r' : Nat} {realm : Realm}
    (found : (config.workingGraph registry project).realms[r]? = some realm) :
    (config.workingGraph registry project).Step r r' ↔
      ∃ parent, (config.workingGraph registry project).names[r']? = some parent ∧
        realm.name ≠ rootRealm ∧ (parent = rootRealm ∨ config.ExtendsRealm realm.name parent) := by
  have working := List.mem_of_getElem? found
  have distinct : (config.workingGraph registry project).names.Nodup := workingGraph_names_nodup
  constructor
  · rintro ⟨realm', parents, found', positions, listed⟩
    rw [found] at found'
    cases found'
    obtain ⟨parent, parentListed, positioned⟩ :=
      (RealmGraph.mem_parentPositions positions).mp listed
    obtain ⟨notRoot, parentIs⟩ := RealmGraph.mem_parentNames.mp parentListed
    refine ⟨parent, (RealmGraph.position_eq_ok_iff distinct).mp positioned, notRoot, ?_⟩
    rcases parentIs with isRoot | declared
    · exact Or.inl isRoot
    · exact Or.inr ((checked.mem_working_parents working).mp declared)
  · rintro ⟨parent, parentNamed, notRoot, parentIs⟩
    have known : ∀ name ∈ RealmGraph.parentNames realm,
        name ∈ (config.workingGraph registry project).names := by
      intro name listed
      rcases (RealmGraph.mem_parentNames.mp listed).2 with rfl | declared
      · exact RealmGraph.mem_build_names.mpr (Or.inr rfl)
      · exact checked.mem_workingGraph_names_of_extends
          ((checked.mem_working_parents working).mp declared)
    obtain ⟨parents, positions⟩ := RealmGraph.parentPositions_ok known
    have parentListed : parent ∈ RealmGraph.parentNames realm := by
      refine RealmGraph.mem_parentNames.mpr ⟨notRoot, ?_⟩
      rcases parentIs with isRoot | declared
      · exact Or.inl isRoot
      · exact Or.inr ((checked.mem_working_parents working).mpr declared)
    exact ⟨realm, parents, found, positions, (RealmGraph.mem_parentPositions positions).mpr
      ⟨parent, parentListed, (RealmGraph.position_eq_ok_iff distinct).mpr parentNamed⟩⟩

theorem inheritsFrom_of_reach {r r' : Nat} {name : String}
    (reach : Relation.ReflTransGen (config.workingGraph registry project).Step r r')
    (named : (config.workingGraph registry project).names[r]? = some name) :
    ∃ ancestor, (config.workingGraph registry project).names[r']? = some ancestor ∧
      config.InheritsFrom name ancestor := by
  induction reach with
  | refl => exact ⟨name, named, Or.inl .refl⟩
  | @tail middle last _ step ih =>
      obtain ⟨between, middleNamed, inherits⟩ := ih
      obtain ⟨realm, found, realmNamed⟩ := RealmGraph.exists_realm_of_names middleNamed
      obtain ⟨parent, parentNamed, notRoot, parentIs⟩ := (checked.step_iff found).mp step
      rw [realmNamed] at notRoot parentIs
      refine ⟨parent, parentNamed, ?_⟩
      rcases inherits with chain | ⟨-, isRoot⟩
      · rcases parentIs with rfl | extended
        · by_cases nameIsRoot : name = rootRealm
          · rw [nameIsRoot] at chain
            exact absurd (checked.eq_root_of_chain chain) notRoot
          · exact Or.inr ⟨nameIsRoot, rfl⟩
        · exact Or.inl (chain.tail extended)
      · exact absurd isRoot notRoot

theorem reach_of_chain {name ancestor : String}
    (chain : Relation.ReflTransGen config.ExtendsRealm name ancestor) {r : Nat}
    (named : (config.workingGraph registry project).names[r]? = some name) :
    ∃ r', (config.workingGraph registry project).names[r']? = some ancestor ∧
      Relation.ReflTransGen (config.workingGraph registry project).Step r r' := by
  induction chain with
  | refl => exact ⟨r, named, .refl⟩
  | @tail middle parent _ extended ih =>
      obtain ⟨m, middleNamed, reach⟩ := ih
      obtain ⟨realm, found, realmNamed⟩ := RealmGraph.exists_realm_of_names middleNamed
      have notRoot : middle ≠ rootRealm := by
        rintro rfl
        exact checked.not_extendsRealm_root parent extended
      obtain ⟨p, positioned⟩ :=
        RealmGraph.position_ok_of_mem (checked.mem_workingGraph_names_of_extends extended)
      have parentNamed :=
        (RealmGraph.position_eq_ok_iff workingGraph_names_nodup).mp positioned
      rw [← realmNamed] at notRoot extended
      exact ⟨p, parentNamed,
        reach.tail ((checked.step_iff found).mpr ⟨parent, parentNamed, notRoot, Or.inr extended⟩)⟩

/-- Between two working realms, reaching is inheriting. -/
theorem reach_iff {r r' : Nat} {name ancestor : String}
    (named : (config.workingGraph registry project).names[r]? = some name)
    (ancestorNamed : (config.workingGraph registry project).names[r']? = some ancestor) :
    Relation.ReflTransGen (config.workingGraph registry project).Step r r' ↔
      config.InheritsFrom name ancestor := by
  constructor
  · intro reach
    obtain ⟨ancestor', named', inherits⟩ := checked.inheritsFrom_of_reach reach named
    rw [ancestorNamed] at named'
    rwa [Option.some.inj named']
  · rintro (chain | ⟨notRoot, rfl⟩)
    · obtain ⟨p, pNamed, reach⟩ := checked.reach_of_chain chain named
      have same : p = r' := RealmGraph.eq_of_names workingGraph_names_nodup pNamed
        ancestorNamed
      rwa [same] at reach
    · obtain ⟨realm, found, rfl⟩ := RealmGraph.exists_realm_of_names named
      exact .single ((checked.step_iff found).mpr ⟨rootRealm, ancestorNamed, notRoot, Or.inl rfl⟩)

/-- The bindings of the working realms reachable from a realm are the bindings declared by the
realms it inherits from. -/
theorem exists_reach_binding_iff {r : Nat} {name : String}
    (named : (config.workingGraph registry project).names[r]? = some name)
    (holds : Binding → Prop) :
    (∃ r', Relation.ReflTransGen (config.workingGraph registry project).Step r r' ∧
      ∃ realm', (config.workingGraph registry project).realms[r']? = some realm' ∧
        ∃ binding ∈ realm'.bindings, holds binding) ↔
      ∃ ancestor binding, config.InheritsFrom name ancestor ∧
        config.DeclaresBinding registry project ancestor binding ∧ holds binding := by
  constructor
  · rintro ⟨r', reach, realm', found, binding, listed, held⟩
    have ancestorNamed : (config.workingGraph registry project).names[r']? = some realm'.name := by
      rw [RealmGraph.getElem?_names, found, Option.map_some]
    exact ⟨realm'.name, binding, (checked.reach_iff named ancestorNamed).mp reach,
      (checked.mem_working_bindings (List.mem_of_getElem? found)).mp listed, held⟩
  · rintro ⟨ancestor, binding, inherits, declared, held⟩
    obtain ⟨r', positioned⟩ :=
      RealmGraph.position_ok_of_mem (mem_workingGraph_names_of_declares declared)
    have ancestorNamed := (RealmGraph.position_eq_ok_iff workingGraph_names_nodup).mp positioned
    obtain ⟨realm', found, rfl⟩ := RealmGraph.exists_realm_of_names ancestorNamed
    exact ⟨r', (checked.reach_iff named ancestorNamed).mpr inherits, realm', found, binding,
      (checked.mem_working_bindings (List.mem_of_getElem? found)).mpr declared, held⟩

/-! ### No working realm reaches itself -/

/-- The parents the cycle search sees for a declared realm are its parents other than the root. -/
theorem parentsOf_realmInheritance {declared : Realm} (member : declared ∈ config.realms) :
    (realmInheritance config.realms).parentsOf declared.name =
      declared.parents.filter (· ≠ rootRealm) := by
  unfold Inheritance.parentsOf realmInheritance
  have present : ((config.realms.map fun realm =>
      (realm.name, realm.parents.filter (· ≠ rootRealm))).reverse.find?
        (·.1 == declared.name)).isSome :=
    List.find?_isSome.mpr ⟨_, List.mem_reverse.mpr (List.mem_map_of_mem member), beq_self_eq_true _⟩
  obtain ⟨entry, found⟩ := Option.isSome_iff_exists.mp present
  rw [found]
  have selected := List.find?_some found
  obtain ⟨other, otherMember, rfl⟩ :=
    List.mem_map.mp (List.mem_reverse.mp (List.mem_of_find?_eq_some found))
  have same : other = declared :=
    List.inj_on_of_nodup_map checked.realmNames otherMember member (beq_iff_eq.mp selected)
  rw [same]

/-- A step between realm names, other than to the root, is a step the cycle search sees. -/
theorem parentOf_of_nameStep {child parent : String}
    (step : (config.workingGraph registry project).NameStep child parent)
    (notRoot : parent ≠ rootRealm) :
    (realmInheritance config.realms).ParentOf parent child := by
  obtain ⟨realm, found, listed⟩ := step
  obtain ⟨working, rfl⟩ := (RealmGraph.realm?_eq_some_iff workingGraph_names_nodup).mp found
  obtain ⟨-, isRoot | declaredParent⟩ := RealmGraph.mem_parentNames.mp listed
  · exact absurd isRoot notRoot
  · obtain ⟨declared, member, named, parentListed⟩ :=
      (checked.mem_working_parents working).mp declaredParent
    unfold Inheritance.ParentOf
    rw [← named, checked.parentsOf_realmInheritance member]
    exact List.mem_filter.mpr ⟨parentListed, decide_eq_true notRoot⟩

/-- A chain of steps between realm names that ends away from the root is a chain of the
declared parents, read backwards. -/
theorem parentOf_chain {a c : String}
    (chain : Relation.TransGen (config.workingGraph registry project).NameStep a c)
    (notRoot : c ≠ rootRealm) :
    Relation.TransGen (realmInheritance config.realms).ParentOf c a := by
  induction chain with
  | single step => exact .single (checked.parentOf_of_nameStep step notRoot)
  | @tail b c _ step ih =>
      exact .head (checked.parentOf_of_nameStep step notRoot)
        (ih (not_root_of_nameStep step))

theorem not_nameStep_cycle (name : String) :
    ¬ Relation.TransGen (config.workingGraph registry project).NameStep name name := by
  intro cycle
  obtain ⟨next, first, -⟩ := Relation.TransGen.head'_iff.mp cycle
  have listed : ∀ entry ∈ realmInheritance config.realms, entry.1 ∈ config.realms.map (·.name) := by
    intro entry member
    obtain ⟨realm, realmMember, rfl⟩ := List.mem_map.mp member
    exact List.mem_map_of_mem realmMember
  exact Inheritance.not_transGen_self
    (Inheritance.wellFounded_of_findCycle checked.realmsAcyclic listed) name
    (checked.parentOf_chain cycle (not_root_of_nameStep first))

theorem not_step_cycle (r : Nat) :
    ¬ Relation.TransGen (config.workingGraph registry project).Step r r := fun cycle =>
  checked.not_nameStep_cycle _ (cycle.lift _ fun _ _ step => nameStep_of_step step)

end Checked

end Config

end RealmAccess
