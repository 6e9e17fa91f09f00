import Mathlib
/-!
# Running memo-keeping steps

Resolution and the walk are steps that may fail and keep a memo: `ExceptT` over `StateM`. These
equations run such a step from a state, so proofs about a step follow its control flow without
unfolding the monads. Memos are association lists, read with `List.lookup`.
-/

namespace RealmAccess

section Run

variable {ε σ α β : Type}

@[simp] theorem run_run_pure (a : α) (state : σ) :
    (pure a : ExceptT ε (StateM σ) α).run.run state = (.ok a, state) := rfl

@[simp] theorem run_run_throw (e : ε) (state : σ) :
    (throw e : ExceptT ε (StateM σ) α).run.run state = (.error e, state) := rfl

@[simp] theorem run_run_get (state : σ) :
    (get : ExceptT ε (StateM σ) σ).run.run state = (.ok state, state) := rfl

@[simp] theorem run_run_modify (f : σ → σ) (state : σ) :
    (modify f : ExceptT ε (StateM σ) PUnit).run.run state = (.ok PUnit.unit, f state) := rfl

theorem run_run_bind (x : ExceptT ε (StateM σ) α) (f : α → ExceptT ε (StateM σ) β) (state : σ) :
    (x >>= f).run.run state =
      match x.run.run state with
      | (.ok a, state') => (f a).run.run state'
      | (.error e, state') => (.error e, state') := by
  simp only [ExceptT.run_bind, StateT.run_bind]
  rcases x.run.run state with ⟨_ | _, _⟩ <;> rfl

theorem run_run_bind_of_ok {x : ExceptT ε (StateM σ) α} {f : α → ExceptT ε (StateM σ) β}
    {state state' : σ} {a : α} (ran : x.run.run state = (.ok a, state')) :
    (x >>= f).run.run state = (f a).run.run state' := by
  rw [run_run_bind, ran]

theorem run_run_liftM_of_run {x : StateM σ α} {state state' : σ} {a : α}
    (ran : x.run state = (a, state')) :
    (liftM x : ExceptT ε (StateM σ) α).run.run state = (.ok a, state') := by
  show (Except.ok <$> x).run state = _
  rw [StateT.run_map, ran]
  rfl

theorem run_run_liftM_except (answer : Except ε α) (state : σ) :
    (liftM answer : ExceptT ε (StateM σ) α).run.run state = (answer, state) := by
  cases answer <;> rfl

theorem bind_eq_ok_iff {x : Except ε α} {f : α → Except ε β} {b : β} :
    x >>= f = .ok b ↔ ∃ a, x = .ok a ∧ f a = .ok b := by
  cases x with
  | error e => simp [bind, Except.bind]
  | ok a => simp [bind, Except.bind]

theorem run_bind_of_run_eq {x : StateM σ α} {f : α → StateM σ β} {state state' : σ} {a : α}
    (ran : x.run state = (a, state')) : (x >>= f).run state = (f a).run state' := by
  rw [StateT.run_bind, ran]
  rfl

/-- A loop of steps succeeds when every step succeeds from every state the loop can reach,
the states reached being those that `keeps` holds of. -/
theorem forIn_run_ok {γ : Type} {step : γ → ExceptT ε (StateM σ) PUnit} (keeps : σ → Prop)
    {items : List γ}
    (each : ∀ item ∈ items, ∀ state result state', keeps state →
      (step item).run.run state = (result, state') → result = .ok () ∧ keeps state')
    {state state' : σ} {result : Except ε PUnit} (start : keeps state)
    (ran : (forIn items PUnit.unit fun item _ => do
        step item
        pure (ForInStep.yield PUnit.unit)).run.run state = (result, state')) :
    result = .ok () := by
  induction items generalizing state with
  | nil =>
      simp only [List.forIn_nil, run_run_pure, Prod.mk.injEq] at ran
      exact ran.1.symm
  | cons item more ih =>
      simp only [List.forIn_cons, run_run_bind] at ran
      rcases stepRan : (step item).run.run state with ⟨first, middle⟩
      obtain ⟨firstOk, middleKept⟩ := each item List.mem_cons_self state first middle start stepRan
      rw [stepRan, firstOk] at ran
      simp only [run_run_pure] at ran
      exact ih (fun other member => each other (List.mem_cons_of_mem item member)) middleKept ran

end Run

section Lookup

variable {κ ν ν' : Type} [BEq κ] [LawfulBEq κ]

theorem mem_of_lookup_eq_some {entries : List (κ × ν)} {key : κ} {value : ν}
    (found : entries.lookup key = some value) : (key, value) ∈ entries := by
  obtain ⟨before, after, rfl, _⟩ := List.lookup_eq_some_iff.mp found
  exact List.mem_append_right before List.mem_cons_self

/-- Relabelling the values of an association list, keeping its keys, relabels what a lookup
finds. -/
theorem lookup_map_of_keeps_keys {g : κ × ν → κ × ν'} (keeps : ∀ entry, (g entry).1 = entry.1)
    (entries : List (κ × ν)) (key : κ) :
    (entries.map g).lookup key = (entries.lookup key).map fun value => (g (key, value)).2 := by
  induction entries with
  | nil => rfl
  | cons entry more ih =>
      rw [List.map_cons, List.lookup_cons, List.lookup_cons, keeps]
      cases equal : key == entry.1 with
      | true =>
          have same : key = entry.1 := beq_iff_eq.mp equal
          rw [same]
          rfl
      | false => exact ih

theorem lookup_isSome_of_mem {entries : List (κ × ν)} {key : κ} {value : ν}
    (member : (key, value) ∈ entries) : (entries.lookup key).isSome := by
  rw [List.lookup_isSome_iff]
  exact ⟨(key, value), member, beq_self_eq_true key⟩

end Lookup

theorem getElem?_of_prefix {α : Type} {before after : List α} (extended : before <+: after)
    {i : Nat} {x : α} (found : before[i]? = some x) : after[i]? = some x := by
  obtain ⟨rest, rfl⟩ := extended
  have inRange : i < before.length := (List.getElem?_eq_some_iff.mp found).1
  rw [List.getElem?_append_left inRange]
  exact found

/-- Where `dropWhile (· ≠ x)` stops stands `x`: the list is what came before it, then `x`,
then the rest. -/
theorem dropWhile_ne_eq_cons {α : Type} [DecidableEq α] {xs rest : List α} {x y : α}
    (dropped : xs.dropWhile (· ≠ x) = y :: rest) :
    y = x ∧ xs = xs.takeWhile (· ≠ x) ++ x :: rest := by
  have stopsThere := List.head?_dropWhile_not (· ≠ x) xs
  rw [dropped] at stopsThere
  have isX : y = x := by simpa using stopsThere
  refine ⟨isX, ?_⟩
  calc xs = xs.takeWhile (· ≠ x) ++ xs.dropWhile (· ≠ x) := List.takeWhile_append_dropWhile.symm
    _ = xs.takeWhile (· ≠ x) ++ x :: rest := by rw [dropped, isX]

section MapM

variable {ε α β : Type}

theorem forall₂_of_mapM_eq_ok {f : α → Except ε β} :
    ∀ {items : List α} {results : List β}, items.mapM f = .ok results →
      List.Forall₂ (fun item result => f item = .ok result) items results
  | [], results, ran => by
      cases ran
      exact List.Forall₂.nil
  | item :: more, results, ran => by
      rw [List.mapM_cons] at ran
      cases first : f item with
      | error e =>
          rw [first] at ran
          cases ran
      | ok result =>
          rw [first] at ran
          cases rest : more.mapM f with
          | error e =>
              rw [rest] at ran
              cases ran
          | ok others =>
              rw [rest] at ran
              cases ran
              exact List.Forall₂.cons first (forall₂_of_mapM_eq_ok rest)

theorem mem_of_mapM_eq_ok {f : α → Except ε β} {items : List α} {results : List β}
    (ran : items.mapM f = .ok results) {result : β} :
    result ∈ results ↔ ∃ item ∈ items, f item = .ok result := by
  have paired := forall₂_of_mapM_eq_ok ran
  clear ran
  induction paired with
  | nil => simp
  | @cons item first more others related _ ih =>
      rw [List.mem_cons]
      constructor
      · rintro (rfl | later)
        · exact ⟨item, List.mem_cons_self, related⟩
        · obtain ⟨other, otherMember, numbered⟩ := ih.mp later
          exact ⟨other, List.mem_cons_of_mem item otherMember, numbered⟩
      · rintro ⟨other, otherMember, numbered⟩
        rcases List.mem_cons.mp otherMember with rfl | later
        · rw [related] at numbered
          exact Or.inl (Except.ok.inj numbered).symm
        · exact Or.inr (ih.mpr ⟨other, later, numbered⟩)

theorem exists_of_forall₂_right {R : α → β → Prop} {items : List α} {results : List β}
    (related : List.Forall₂ R items results) {result : β} (member : result ∈ results) :
    ∃ item ∈ items, R item result := by
  induction related with
  | nil => cases member
  | @cons item first more others relatedFirst _ ih =>
      rcases List.mem_cons.mp member with rfl | later
      · exact ⟨item, List.mem_cons_self, relatedFirst⟩
      · obtain ⟨other, otherMember, relatedOther⟩ := ih later
        exact ⟨other, List.mem_cons_of_mem item otherMember, relatedOther⟩

theorem exists_of_forall₂_left {R : α → β → Prop} {items : List α} {results : List β}
    (related : List.Forall₂ R items results) {item : α} (member : item ∈ items) :
    ∃ result ∈ results, R item result := by
  induction related with
  | nil => cases member
  | @cons first result more others relatedFirst _ ih =>
      rcases List.mem_cons.mp member with rfl | later
      · exact ⟨result, List.mem_cons_self, relatedFirst⟩
      · obtain ⟨other, otherMember, relatedOther⟩ := ih later
        exact ⟨other, List.mem_cons_of_mem result otherMember, relatedOther⟩

theorem map_eq_of_forall₂ {γ : Type} {R : α → β → Prop} {f : α → γ} {g : β → γ}
    {items : List α} {results : List β} (related : List.Forall₂ R items results)
    (same : ∀ item result, R item result → f item = g result) : items.map f = results.map g := by
  induction related with
  | nil => rfl
  | cons relatedFirst _ ih => rw [List.map_cons, List.map_cons, same _ _ relatedFirst, ih]

/-- Two lists matched, element by element, against one list of keys are equal when each key
has one partner in the two. -/
theorem eq_of_forall₂_of_unique {first second : α → β → Prop} {keys : List α}
    {ys zs : List β} (matched : List.Forall₂ first keys ys) (matched' : List.Forall₂ second keys zs)
    (unique : ∀ key y z, y ∈ ys → z ∈ zs → first key y → second key z → y = z) : ys = zs := by
  induction matched generalizing zs with
  | nil =>
      cases matched'
      rfl
  | @cons key y keys ys related _ ih =>
      cases matched' with
      | @cons _ z _ zs related' rest =>
          have head : y = z := unique key y z List.mem_cons_self List.mem_cons_self related related'
          have tail : ys = zs := ih rest fun key y z inYs inZs =>
            unique key y z (List.mem_cons_of_mem _ inYs) (List.mem_cons_of_mem _ inZs)
          rw [head, tail]

theorem mapM_eq_ok_of_forall {f : α → Except ε β} :
    ∀ {items : List α}, (∀ item ∈ items, ∃ result, f item = .ok result) →
      ∃ results, items.mapM f = .ok results
  | [], _ => ⟨[], rfl⟩
  | item :: more, succeeds => by
      obtain ⟨result, first⟩ := succeeds item List.mem_cons_self
      obtain ⟨others, rest⟩ :=
        mapM_eq_ok_of_forall fun other member => succeeds other (List.mem_cons_of_mem item member)
      refine ⟨result :: others, ?_⟩
      rw [List.mapM_cons, first, rest]
      rfl

end MapM

end RealmAccess
