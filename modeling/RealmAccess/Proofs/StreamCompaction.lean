import RealmAccess.Proofs.Compaction
/-!
# Compacting a stream of grants

A walk hands compaction a stream of grants that may end in an error. Compaction gives back the
first error, or groups the grants in two stages: the permissions of each principal under each
list of conditions are joined first, and principals with equal joined permissions under equal
conditions then share one binding.

`Compacts grants records` says what the grouping is, from the grants alone: it names the joined
permissions of a principal under a list of conditions (`joinedPermissions`) and says nothing of
the order in which the stages meet the grants. Two facts a reader of the bindings relies on follow
from it: the grants held are exactly the grants given (`Compacts.holds_iff`), and principals with
the same joined permissions under the same conditions are listed together (`Compacts.shared`).
-/

namespace RealmAccess

/-- The permissions the grants give `principal` under `conditions`, joined and sorted. -/
def joinedPermissions (grants : List Grant) (principal : String) (conditions : List Nat) :
    List Nat :=
  Order.sortNats ((grants.filter fun grant =>
    grant.principal = principal ∧ grant.conditions = conditions).flatMap (·.permissions))

theorem mem_joinedPermissions {grants : List Grant} {principal : String} {conditions : List Nat}
    {permission : Nat} :
    permission ∈ joinedPermissions grants principal conditions ↔
      ∃ grant ∈ grants, grant.principal = principal ∧ permission ∈ grant.permissions ∧
        grant.conditions = conditions := by
  simp only [joinedPermissions, Order.mem_sortNats, List.mem_flatMap, List.mem_filter,
    decide_eq_true_eq]
  constructor
  · rintro ⟨grant, ⟨member, named, conditioned⟩, listed⟩
    exact ⟨grant, member, named, listed, conditioned⟩
  · rintro ⟨grant, member, named, listed, conditioned⟩
    exact ⟨grant, ⟨member, named, conditioned⟩, listed⟩

/-- `records` compact `grants`: in each binding the permissions strictly increase and the
principals are some and distinct; no two bindings have the same permissions and conditions; and a
principal the grants name under a list of conditions is listed under it in exactly one binding,
whose permissions are all the grants give the principal there. -/
structure Compacts (grants : List Grant) (records : List BindingRecord) : Prop where
  permissions_sortedLT : ∀ record ∈ records, record.permissions.SortedLT
  principals_nodup : ∀ record ∈ records, record.principals ≠ [] ∧ record.principals.Nodup
  keys_nodup : (records.map fun record => (record.permissions, record.conditions)).Nodup
  covers : ∀ principal conditions,
    (∃ grant ∈ grants, grant.principal = principal ∧ grant.conditions = conditions) →
      ∃ record ∈ records, principal ∈ record.principals ∧ record.conditions = conditions
  once : ∀ a ∈ records, ∀ b ∈ records, a.conditions = b.conditions →
    ∀ principal ∈ a.principals, principal ∈ b.principals → a = b
  joined : ∀ record ∈ records, ∀ principal ∈ record.principals,
    (∃ grant ∈ grants, grant.principal = principal ∧ grant.conditions = record.conditions) ∧
      record.permissions = joinedPermissions grants principal record.conditions

section Compacts

variable {grants : List Grant} {records : List BindingRecord}

/-- The grants held in compacted bindings are exactly the grants given. -/
theorem Compacts.holds_iff (compacts : Compacts grants records) {principal : String}
    {permission : Nat} {conditions : List Nat} :
    BindingRecord.Holds records principal permission conditions ↔
      ∃ grant ∈ grants, grant.principal = principal ∧ permission ∈ grant.permissions ∧
        grant.conditions = conditions := by
  rw [← mem_joinedPermissions]
  constructor
  · rintro ⟨record, member, listed, granted, rfl⟩
    rw [← (compacts.joined record member principal listed).2]
    exact granted
  · intro joinedIn
    obtain ⟨grant, grantMember, named, -, conditioned⟩ := mem_joinedPermissions.mp joinedIn
    obtain ⟨record, member, listed, rfl⟩ :=
      compacts.covers principal conditions ⟨grant, grantMember, named, conditioned⟩
    refine ⟨record, member, listed, ?_, rfl⟩
    rw [(compacts.joined record member principal listed).2]
    exact joinedIn

/-- Principals given the same joined permissions under the same conditions share one binding. -/
theorem Compacts.shared (compacts : Compacts grants records) {principal principal' : String}
    {conditions : List Nat}
    (occurs : ∃ grant ∈ grants, grant.principal = principal ∧ grant.conditions = conditions)
    (occurs' : ∃ grant ∈ grants, grant.principal = principal' ∧ grant.conditions = conditions)
    (sameJoined : joinedPermissions grants principal conditions =
      joinedPermissions grants principal' conditions) :
    ∃ record ∈ records, principal ∈ record.principals ∧ principal' ∈ record.principals ∧
      record.conditions = conditions := by
  obtain ⟨record, member, listed, conditioned⟩ := compacts.covers principal conditions occurs
  obtain ⟨record', member', listed', conditioned'⟩ := compacts.covers principal' conditions occurs'
  -- both bindings have the joined permissions as their permissions, so they have one key
  have sameKey : (record.permissions, record.conditions) =
      (record'.permissions, record'.conditions) := by
    rw [(compacts.joined record member principal listed).2,
      (compacts.joined record' member' principal' listed').2, conditioned, conditioned', sameJoined]
  have same : record = record' := List.inj_on_of_nodup_map compacts.keys_nodup member member' sameKey
  exact ⟨record, member, listed, same ▸ listed', conditioned⟩

end Compacts

theorem compact_principals_sortedLT {grants : List Grant} {record : BindingRecord}
    (member : record ∈ compact grants) : record.principals.SortedLT := by
  obtain ⟨entry, -, rfl⟩ := mem_compact.mp member
  exact Order.sortStrings_sortedLT entry.2

/-- A compacted binding holds, for each principal it lists, all the permissions the grants give
the principal under its conditions. -/
theorem compact_permissions_eq {grants : List Grant} {record : BindingRecord}
    (member : record ∈ compact grants) {principal : String}
    (listed : principal ∈ record.principals) :
    record.permissions = joinedPermissions grants principal record.conditions := by
  refine (compact_shape member).1.eq_of_mem_iff (Order.sortNats_sortedLT _) fun permission => ?_
  rw [mem_joinedPermissions, ← holds_compact]
  constructor
  · intro granted
    exact ⟨record, member, listed, granted, rfl⟩
  · -- the binding that holds the permission lists the principal under the same conditions
    rintro ⟨other, otherMember, otherListed, granted, sameConditions⟩
    rw [compact_principal_once otherMember member sameConditions otherListed listed] at granted
    exact granted

theorem compacts_compact (grants : List Grant) : Compacts grants (compact grants) where
  permissions_sortedLT _ member := (compact_shape member).1
  principals_nodup _ member :=
    ⟨(compact_shape member).2.1, (compact_principals_sortedLT member).nodup⟩
  keys_nodup := compact_pairs_nodup grants
  covers _ _ occurs := appears_compact.mpr occurs
  once _ aMember _ bMember sameConditions _ inA inB :=
    compact_principal_once aMember bMember sameConditions inA inB
  joined record member _ listed :=
    ⟨appears_compact.mp ⟨record, member, listed, rfl⟩, compact_permissions_eq member listed⟩

/-! ### Streams -/

/-- A stream that starts with grants keeps them ahead of what the rest of it gives. -/
theorem ofStream_ok_append (grants : List Grant) (more : List (Except ExpandError Grant)) :
    Trace.ofStream (grants.map Except.ok ++ more) =
      { grants := grants ++ (Trace.ofStream more).grants, stop := (Trace.ofStream more).stop } := by
  induction grants with
  | nil => rfl
  | cons grant grants ih =>
      rw [List.map_cons, List.cons_append, Trace.ofStream, ih]
      rfl

theorem compact_ofStream_error (grants : List Grant) (e : ExpandError)
    (rest : List (Except ExpandError Grant)) :
    (Trace.ofStream (grants.map Except.ok ++ .error e :: rest)).compact = .error e := by
  rw [ofStream_ok_append]
  rfl

theorem compact_ofStream_ok (grants : List Grant) :
    (Trace.ofStream (grants.map Except.ok)).compact = .ok (compact grants) := by
  rw [← List.append_nil (grants.map Except.ok), ofStream_ok_append]
  show Except.ok (compact (grants ++ [])) = _
  rw [List.append_nil]

/-- Compacting a stream of grants gives the stream's first error when it has one, and otherwise
bindings that compact its grants: the grants held are exactly those given, and principals with
the same joined permissions under the same conditions share one binding. -/
theorem stream_compaction_groups (items : List (Except ExpandError Grant)) :
    (∀ (grants : List Grant) (e : ExpandError) (rest : List (Except ExpandError Grant)), items = grants.map Except.ok ++ .error e :: rest →
        (Trace.ofStream items).compact = .error e) ∧
      ∀ grants : List Grant, items = grants.map Except.ok →
        ∃ records, (Trace.ofStream items).compact = .ok records ∧ Compacts grants records ∧
          (∀ principal permission conditions,
            BindingRecord.Holds records principal permission conditions ↔
              ∃ grant ∈ grants, grant.principal = principal ∧ permission ∈ grant.permissions ∧
                grant.conditions = conditions) ∧
          ∀ (principal principal' : String) (conditions : List Nat),
            (∃ grant ∈ grants, grant.principal = principal ∧ grant.conditions = conditions) →
            (∃ grant ∈ grants, grant.principal = principal' ∧ grant.conditions = conditions) →
            joinedPermissions grants principal conditions =
              joinedPermissions grants principal' conditions →
            ∃ record ∈ records, principal ∈ record.principals ∧ principal' ∈ record.principals ∧
              record.conditions = conditions := by
  refine ⟨fun grants e rest streamed => ?_, fun grants streamed => ?_⟩
  · rw [streamed, compact_ofStream_error]
  · have compacts := compacts_compact grants
    refine ⟨compact grants, by rw [streamed, compact_ofStream_ok], compacts,
      fun _ _ _ => compacts.holds_iff, fun _ _ _ occurs occurs' sameJoined => ?_⟩
    exact compacts.shared occurs occurs' sameJoined

end RealmAccess
