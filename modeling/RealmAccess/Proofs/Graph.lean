import Mathlib.Data.List.Sort
import RealmAccess.Expansion.Walker
import RealmAccess.Proofs.Memo
import RealmAccess.Proofs.Order
/-!
# The working realm list: names, positions and slots

`lastOfEachName` keeps one realm per name, so the working realm list has distinct names, and
sorting it by name leaves the names strictly increasing. A name has a position exactly when it
names the realm there, and a condition slot stands for the condition at its realm, binding and
position.
-/

namespace RealmAccess

theorem mem_of_mem_lastOfEachName {realms : List Realm} {realm : Realm}
    (member : realm ∈ lastOfEachName realms) : realm ∈ realms := by
  induction realms with
  | nil => cases member
  | cons head more ih =>
      unfold lastOfEachName at member
      split at member
      · exact List.mem_cons_of_mem head (ih member)
      · rcases List.mem_cons.mp member with rfl | later
        · exact List.mem_cons_self
        · exact List.mem_cons_of_mem _ (ih later)

theorem name_mem_lastOfEachName {realms : List Realm} {name : String} :
    name ∈ (lastOfEachName realms).map (·.name) ↔ name ∈ realms.map (·.name) := by
  induction realms with
  | nil => rfl
  | cons head more ih =>
      unfold lastOfEachName
      split
      · next replaced =>
          rw [ih, List.map_cons, List.mem_cons]
          constructor
          · exact Or.inr
          · rintro (rfl | later)
            · obtain ⟨other, otherMember, same⟩ := List.any_eq_true.mp replaced
              exact List.mem_map.mpr ⟨other, otherMember, beq_iff_eq.mp same⟩
            · exact later
      · rw [List.map_cons, List.map_cons, List.mem_cons, List.mem_cons, ih]

theorem lastOfEachName_names_nodup (realms : List Realm) :
    ((lastOfEachName realms).map (·.name)).Nodup := by
  induction realms with
  | nil => exact List.nodup_nil
  | cons head more ih =>
      unfold lastOfEachName
      split
      · exact ih
      · next kept =>
          rw [List.map_cons, List.nodup_cons]
          refine ⟨fun member => kept ?_, ih⟩
          obtain ⟨other, otherMember, same⟩ :=
            List.mem_map.mp (name_mem_lastOfEachName.mp member)
          exact List.any_eq_true.mpr ⟨other, otherMember, beq_iff_eq.mpr same⟩

/-- With distinct names nothing is replaced. -/
theorem lastOfEachName_of_nodup {realms : List Realm} (distinct : (realms.map (·.name)).Nodup) :
    lastOfEachName realms = realms := by
  induction realms with
  | nil => rfl
  | cons head more ih =>
      rw [List.map_cons, List.nodup_cons] at distinct
      have kept : (more.any (·.name == head.name)) = false := by
        rw [Bool.eq_false_iff]
        intro replaced
        obtain ⟨other, otherMember, same⟩ := List.any_eq_true.mp replaced
        exact distinct.1 (List.mem_map.mpr ⟨other, otherMember, beq_iff_eq.mp same⟩)
      unfold lastOfEachName
      simp only [kept, Bool.false_eq_true, if_false, ih distinct.2]

namespace RealmGraph

/-- What a kept realm becomes in the working list: the root takes the implicit bindings. -/
def withImplicit (implicit : List Binding) (realm : Realm) : Realm :=
  if realm.name = rootRealm then { realm with bindings := realm.bindings ++ implicit } else realm

/-- The realms kept, one per name, with an empty root when none is declared. -/
def declaredWithRoot (config : Config) : List Realm :=
  if (lastOfEachName config.realms).any (·.name == rootRealm) then lastOfEachName config.realms
  else lastOfEachName config.realms ++ [{ name := rootRealm }]

@[simp] theorem withImplicit_name (implicit : List Binding) (realm : Realm) :
    (withImplicit implicit realm).name = realm.name := by
  unfold withImplicit
  split <;> rfl

@[simp] theorem withImplicit_parents (implicit : List Binding) (realm : Realm) :
    (withImplicit implicit realm).parents = realm.parents := by
  unfold withImplicit
  split <;> rfl

@[simp] theorem withImplicit_enforceInService (implicit : List Binding) (realm : Realm) :
    (withImplicit implicit realm).enforceInService = realm.enforceInService := by
  unfold withImplicit
  split <;> rfl

theorem withImplicit_bindings (implicit : List Binding) (realm : Realm) :
    (withImplicit implicit realm).bindings =
      realm.bindings ++ if realm.name = rootRealm then implicit else [] := by
  unfold withImplicit
  split
  · rfl
  · rw [List.append_nil]

theorem build_realms (config : Config) (implicit : List Binding) :
    (build config implicit).realms =
      ((declaredWithRoot config).map (withImplicit implicit)).mergeSort
        fun a b => decide (a.name ≤ b.name) := rfl

theorem mem_declaredWithRoot_names {config : Config} {name : String} :
    name ∈ (declaredWithRoot config).map (·.name) ↔
      name ∈ config.realms.map (·.name) ∨ name = rootRealm := by
  unfold declaredWithRoot
  split
  · next present =>
      rw [name_mem_lastOfEachName]
      constructor
      · exact Or.inl
      · rintro (declared | rfl)
        · exact declared
        · obtain ⟨root, rootMember, named⟩ := List.any_eq_true.mp present
          exact name_mem_lastOfEachName.mp
            (List.mem_map.mpr ⟨root, rootMember, beq_iff_eq.mp named⟩)
  · rw [List.map_append, List.mem_append, name_mem_lastOfEachName]
    simp

theorem declaredWithRoot_names_nodup (config : Config) :
    ((declaredWithRoot config).map (·.name)).Nodup := by
  unfold declaredWithRoot
  split
  · exact lastOfEachName_names_nodup config.realms
  · next absent =>
      rw [List.map_append, List.nodup_append]
      refine ⟨lastOfEachName_names_nodup config.realms, List.nodup_singleton _, ?_⟩
      intro name member root single
      rw [List.map_singleton, List.mem_singleton] at single
      rintro rfl
      obtain ⟨realm, realmMember, named⟩ := List.mem_map.mp member
      exact absent (List.any_eq_true.mpr ⟨realm, realmMember, beq_iff_eq.mpr (named.trans single)⟩)

theorem mem_build_realms {config : Config} {implicit : List Binding} {realm : Realm} :
    realm ∈ (build config implicit).realms ↔
      ∃ declared ∈ declaredWithRoot config, realm = withImplicit implicit declared := by
  rw [build_realms, List.mem_mergeSort, List.mem_map]
  constructor
  · rintro ⟨declared, member, rfl⟩
    exact ⟨declared, member, rfl⟩
  · rintro ⟨declared, member, rfl⟩
    exact ⟨declared, member, rfl⟩

theorem build_names (config : Config) (implicit : List Binding) :
    (build config implicit).names =
      (((declaredWithRoot config).map (withImplicit implicit)).mergeSort
        fun a b => decide (a.name ≤ b.name)).map (·.name) := rfl

theorem mem_build_names {config : Config} {implicit : List Binding} {name : String} :
    name ∈ (build config implicit).names ↔ name ∈ config.realms.map (·.name) ∨ name = rootRealm := by
  rw [build_names, ← mem_declaredWithRoot_names, List.mem_map, List.mem_map]
  constructor
  · rintro ⟨realm, member, rfl⟩
    obtain ⟨declared, declaredMember, rfl⟩ := mem_build_realms.mp member
    exact ⟨declared, declaredMember, (withImplicit_name implicit declared).symm⟩
  · rintro ⟨declared, declaredMember, rfl⟩
    exact ⟨withImplicit implicit declared, mem_build_realms.mpr ⟨declared, declaredMember, rfl⟩,
      withImplicit_name implicit declared⟩

/-- The working realm names are strictly increasing. -/
theorem build_names_sortedLT (config : Config) (implicit : List Binding) :
    (build config implicit).names.SortedLT := by
  have distinct : (((declaredWithRoot config).map (withImplicit implicit)).map (·.name)).Nodup := by
    rw [List.map_map]
    have sameNames : (Realm.name ∘ withImplicit implicit) = Realm.name :=
      funext (withImplicit_name implicit)
    rw [sameNames]
    exact declaredWithRoot_names_nodup config
  exact Order.mergeSort_keys_sortedLT (fun _ _ => decide_eq_true_iff) distinct

/-! ### Positions -/

variable {graph : RealmGraph}

theorem getElem?_names (r : Nat) : graph.names[r]? = (graph.realms[r]?).map (·.name) :=
  List.getElem?_map

theorem position_ok_of_mem {name : String} (member : name ∈ graph.names) :
    ∃ r, graph.position name = .ok r := by
  obtain ⟨realm, realmMember, named⟩ := List.mem_map.mp member
  have found : (graph.realms.findIdx? (·.name == name)).isSome := by
    rw [List.findIdx?_isSome]
    exact List.any_eq_true.mpr ⟨realm, realmMember, beq_iff_eq.mpr named⟩
  obtain ⟨r, atR⟩ := Option.isSome_iff_exists.mp found
  refine ⟨r, ?_⟩
  unfold position
  rw [atR]

/-- With distinct names, the position of a name is where it stands. -/
theorem position_eq_ok_iff (distinct : graph.names.Nodup) {name : String} {r : Nat} :
    graph.position name = .ok r ↔ graph.names[r]? = some name := by
  constructor
  · intro found
    unfold position at found
    split at found
    · next index atIndex =>
        cases found
        obtain ⟨inRange, named, -⟩ := List.findIdx?_eq_some_iff_getElem.mp atIndex
        rw [getElem?_names, List.getElem?_eq_getElem inRange, Option.map_some,
          beq_iff_eq.mp named]
    · cases found
  · intro named
    have member : name ∈ graph.names := List.mem_of_getElem? named
    obtain ⟨other, atOther⟩ := position_ok_of_mem member
    have otherNamed : graph.names[other]? = some name := by
      unfold position at atOther
      split at atOther
      · next index atIndex =>
          cases atOther
          obtain ⟨inRange, sameName, -⟩ := List.findIdx?_eq_some_iff_getElem.mp atIndex
          rw [getElem?_names, List.getElem?_eq_getElem inRange, Option.map_some,
            beq_iff_eq.mp sameName]
      · cases atOther
    have same : other = r := by
      have otherInRange : other < graph.names.length := (List.getElem?_eq_some_iff.mp otherNamed).1
      have inRange : r < graph.names.length := (List.getElem?_eq_some_iff.mp named).1
      rw [List.getElem?_eq_getElem otherInRange] at otherNamed
      rw [List.getElem?_eq_getElem inRange] at named
      exact (List.Nodup.getElem_inj_iff distinct).mp
        ((Option.some.inj otherNamed).trans (Option.some.inj named).symm)
    rw [atOther, same]

/-- With distinct names, the realm of a name is the one realm that has it. -/
theorem realm?_eq_some_iff (distinct : graph.names.Nodup) {name : String} {realm : Realm} :
    graph.realm? name = some realm ↔ realm ∈ graph.realms ∧ realm.name = name := by
  constructor
  · intro found
    unfold realm? at found
    have selected := List.find?_some found
    exact ⟨List.mem_of_find?_eq_some found, beq_iff_eq.mp selected⟩
  · rintro ⟨member, rfl⟩
    have present : (graph.realms.find? (·.name == realm.name)).isSome :=
      List.find?_isSome.mpr ⟨realm, member, beq_self_eq_true _⟩
    obtain ⟨other, found⟩ := Option.isSome_iff_exists.mp present
    have otherMember : other ∈ graph.realms := List.mem_of_find?_eq_some found
    have selected := List.find?_some found
    have sameName : other.name = realm.name := beq_iff_eq.mp selected
    have same : other = realm := List.inj_on_of_nodup_map distinct otherMember member sameName
    unfold realm?
    rw [found, same]

/-! ### Parents -/

theorem mem_parentNames {realm : Realm} {name : String} :
    name ∈ parentNames realm ↔
      realm.name ≠ rootRealm ∧ (name = rootRealm ∨ name ∈ realm.parents) := by
  unfold parentNames
  split
  · next isRoot => simp [isRoot]
  · next notRoot =>
      rw [List.mem_cons, List.mem_filter]
      constructor
      · rintro (rfl | ⟨member, -⟩)
        · exact ⟨notRoot, Or.inl rfl⟩
        · exact ⟨notRoot, Or.inr member⟩
      · rintro ⟨-, rfl | member⟩
        · exact Or.inl rfl
        · by_cases isRoot : name = rootRealm
          · exact Or.inl isRoot
          · exact Or.inr ⟨member, decide_eq_true isRoot⟩

theorem mem_parentPositions {realm : Realm} {parents : List Nat}
    (found : graph.parentPositions realm = .ok parents) {p : Nat} :
    p ∈ parents ↔ ∃ name ∈ parentNames realm, graph.position name = .ok p :=
  mem_of_mapM_eq_ok found

theorem parentPositions_ok {realm : Realm}
    (known : ∀ name ∈ parentNames realm, name ∈ graph.names) :
    ∃ parents, graph.parentPositions realm = .ok parents :=
  mapM_eq_ok_of_forall fun name member => position_ok_of_mem (known name member)

/-! ### Condition slots -/

/-- The condition at position `p` of binding `b` of the realm at `r`. -/
def conditionAt (graph : RealmGraph) (r b p : Nat) : Option Condition :=
  (graph.realms[r]?).bind fun realm =>
    (realm.bindings[b]?).bind fun binding => binding.conditions[p]?

theorem conditionAt_eq_some_iff {r b p : Nat} {condition : Condition} :
    graph.conditionAt r b p = some condition ↔
      ∃ realm, graph.realms[r]? = some realm ∧
        ∃ binding, realm.bindings[b]? = some binding ∧
          binding.conditions[p]? = some condition := by
  unfold conditionAt
  simp only [Option.bind_eq_some_iff]

theorem conditionAt_eq {r b : Nat} {realm : Realm} {binding : Binding}
    (realmFound : graph.realms[r]? = some realm) (bindingFound : realm.bindings[b]? = some binding)
    (p : Nat) : graph.conditionAt r b p = binding.conditions[p]? := by
  unfold conditionAt
  rw [realmFound, Option.bind_some, bindingFound, Option.bind_some]

/-- The slots listed are the slots of the conditions, each with its condition. -/
theorem mem_slots {slot : Slot} {condition : Condition} :
    (slot, condition) ∈ graph.slots ↔
      ∃ r b p, slot = Slot.ofIndices r b p ∧ graph.conditionAt r b p = some condition := by
  simp only [conditionAt_eq_some_iff]
  unfold slots
  simp only [List.mem_flatMap, List.mem_map, List.mem_zipIdx_iff_getElem?, Prod.exists,
    Prod.mk.injEq]
  constructor
  · rintro ⟨realm, r, realmFound, binding, b, bindingFound, c, p, conditionFound, rfl, rfl⟩
    exact ⟨r, b, p, rfl, realm, realmFound, binding, bindingFound, conditionFound⟩
  · rintro ⟨r, b, p, rfl, realm, realmFound, binding, bindingFound, conditionFound⟩
    exact ⟨realm, r, realmFound, binding, b, bindingFound, condition, p, conditionFound, rfl, rfl⟩

theorem mem_slots_of_conditionAt {r b p : Nat} {condition : Condition}
    (located : graph.conditionAt r b p = some condition) :
    (Slot.ofIndices r b p, condition) ∈ graph.slots :=
  mem_slots.mpr ⟨r, b, p, rfl, located⟩

theorem exists_conditionAt {realm : Realm} (working : realm ∈ graph.realms) {binding : Binding}
    (member : binding ∈ realm.bindings) {condition : Condition}
    (listed : condition ∈ binding.conditions) : ∃ r b p, graph.conditionAt r b p = some condition := by
  obtain ⟨r, rBound, realmAt⟩ := List.getElem_of_mem working
  obtain ⟨b, bBound, bindingAt⟩ := List.getElem_of_mem member
  obtain ⟨p, pBound, conditionAt⟩ := List.getElem_of_mem listed
  exact ⟨r, b, p, conditionAt_eq_some_iff.mpr ⟨realm, List.getElem?_eq_some_iff.mpr ⟨rBound, realmAt⟩,
    binding, List.getElem?_eq_some_iff.mpr ⟨bBound, bindingAt⟩,
    List.getElem?_eq_some_iff.mpr ⟨pBound, conditionAt⟩⟩⟩

theorem slots_restricted
    (restricted : ∀ realm ∈ graph.realms, ∀ binding ∈ realm.bindings,
      ∀ condition ∈ binding.conditions, condition.restrict.isSome) :
    ∀ item ∈ graph.slots, item.2.restrict.isSome := by
  rintro ⟨slot, condition⟩ member
  obtain ⟨r, b, p, -, located⟩ := mem_slots.mp member
  obtain ⟨realm, realmFound, binding, bindingFound, conditionFound⟩ :=
    conditionAt_eq_some_iff.mp located
  exact restricted realm (List.mem_of_getElem? realmFound) binding
    (List.mem_of_getElem? bindingFound) condition (List.mem_of_getElem? conditionFound)

theorem filterMap_zipIdx_fst {α β : Type} (f : α → Option β) (l : List α) (n : Nat) :
    (l.zipIdx n).filterMap (fun x => f x.1) = l.filterMap f := by
  conv_rhs => rw [← List.zipIdx_map_fst n l]
  rw [List.filterMap_map]
  rfl

theorem flatMap_zipIdx_fst {α β : Type} (f : α → List β) (l : List α) (n : Nat) :
    (l.zipIdx n).flatMap (fun x => f x.1) = l.flatMap f := by
  conv_rhs => rw [← List.zipIdx_map_fst n l]
  rw [List.flatMap_map]

/-- The restrictions the slots carry are those of the conditions, realm by realm and binding by
binding: the positions only label them. -/
theorem restrictions_slots :
    graph.slots.filterMap (fun item => item.2.restrict) =
      graph.realms.flatMap fun realm => realm.bindings.flatMap fun binding =>
        binding.conditions.filterMap (·.restrict) := by
  unfold slots
  simp only [List.filterMap_flatMap, List.filterMap_map, Function.comp_def, filterMap_zipIdx_fst]
  rw [← flatMap_zipIdx_fst _ graph.realms 0]
  congr 1
  funext x
  exact flatMap_zipIdx_fst (fun binding : Binding => binding.conditions.filterMap (·.restrict)) _ 0

end RealmGraph

/-- Positions that fit 32 bits are told apart by their slot. -/
theorem Slot.ofIndices_inj {r b p r' b' p' : Nat} (fits : r < 2 ^ 32 ∧ b < 2 ^ 32 ∧ p < 2 ^ 32)
    (fits' : r' < 2 ^ 32 ∧ b' < 2 ^ 32 ∧ p' < 2 ^ 32)
    (same : Slot.ofIndices r b p = Slot.ofIndices r' b' p') : r = r' ∧ b = b' ∧ p = p' := by
  simp only [Slot.ofIndices, Slot.mk.injEq] at same
  obtain ⟨sameRealm, sameBinding, samePosition⟩ := same
  have realms := congrArg UInt32.toNat sameRealm
  have bindings := congrArg UInt32.toNat sameBinding
  have positions := congrArg UInt32.toNat samePosition
  rw [Order.toNat_toUInt32_of_lt fits.1, Order.toNat_toUInt32_of_lt fits'.1] at realms
  rw [Order.toNat_toUInt32_of_lt fits.2.1, Order.toNat_toUInt32_of_lt fits'.2.1] at bindings
  rw [Order.toNat_toUInt32_of_lt fits.2.2, Order.toNat_toUInt32_of_lt fits'.2.2] at positions
  exact ⟨realms, bindings, positions⟩

end RealmAccess
