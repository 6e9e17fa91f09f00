import Mathlib.Data.List.Dedup
import RealmAccess.Expansion.Numbering
import RealmAccess.Proofs.Memo
import RealmAccess.Proofs.Order
/-!
# Interning names: first-use numbers and their sorted positions

An interner is relied on for its documented contract only, `StringInterner.FirstUse`: read
through the names it holds in the order they were first interned, `getOrIntern` gives a name its
position among them as its symbol, appending the name when it is new; `iter` yields each symbol
with its name once; `len` counts the names. Everything below about interning and sorting is
derived from that contract, for every interner that keeps it; `NameTable.interner`, the one
expansion runs on, keeps it (`NameTable.firstUse`).

Interning only ever appends a name the interner does not hold, so its names grow by extension,
stay distinct, and every symbol handed out keeps naming the same name.

`StringInterner.finalize` takes each symbol to the position of its name among the sorted names:
a one-to-one map onto those positions that keeps every name. The entries it sorts have distinct
symbols, so the order in which `iter` yields them does not matter.

Interning a list into an empty interner gives a name met for the first time the number of
distinct names before it, and a name met again the number of its first occurrence; the interner
then holds as many names as the list holds distinct ones
(`interning_numbers_by_first_use_and_sorting_relabels`).

For a `NameTable`, `NameTable.Lists` says that some numbers name exactly the names with a
property; extending the table keeps it.
-/

namespace RealmAccess

namespace StringInterner

variable {σ : Type}

/-- The documented contract of a string interner, read through `contents`, the names an
interner holds in the order they were first interned: the empty interner holds none;
`getOrIntern` gives a name its position among them as its symbol, appending the name if it is
new; `iter` yields each symbol with its name once; `len` counts the names. -/
structure FirstUse (interner : StringInterner σ) (contents : σ → List String) : Prop where
  empty : contents interner.empty = []
  symbol : ∀ state name, (interner.getOrIntern state name).1 = (contents state).idxOf name
  interned : ∀ state name, contents (interner.getOrIntern state name).2 =
    if name ∈ contents state then contents state else contents state ++ [name]
  iter : ∀ state, (interner.iter state).Perm ((contents state).zipIdx.map Prod.swap)
  len : ∀ state, interner.len state = (contents state).length

variable {interner : StringInterner σ}

theorem internAll_cons (state : σ) (name : String) (more : List String) :
    interner.internAll state (name :: more) =
      ((interner.getOrIntern state name).1 ::
          (interner.internAll (interner.getOrIntern state name).2 more).1,
        (interner.internAll (interner.getOrIntern state name).2 more).2) := rfl

theorem internAll_append (state : σ) (first second : List String) :
    interner.internAll state (first ++ second) =
      ((interner.internAll state first).1 ++
          (interner.internAll (interner.internAll state first).2 second).1,
        (interner.internAll (interner.internAll state first).2 second).2) := by
  induction first generalizing state with
  | nil => rfl
  | cons name more ih => rw [List.cons_append, internAll_cons, ih, internAll_cons, List.cons_append]

theorem length_internAll (state : σ) (names : List String) :
    (interner.internAll state names).1.length = names.length := by
  induction names generalizing state with
  | nil => rfl
  | cons name more ih => rw [internAll_cons, List.length_cons, ih, List.length_cons]

theorem finalize_names (state : σ) :
    (interner.finalize state).names = (interner.sortedEntries state).map Prod.fst := rfl

theorem finalize_oldToNew (state : σ) :
    (interner.finalize state).oldToNew =
      Order.relabel ((interner.sortedEntries state).map Prod.snd) := rfl

namespace FirstUse

variable {contents : σ → List String} (lawful : interner.FirstUse contents)
include lawful

/-! ### One name -/

theorem getElem?_getOrIntern (state : σ) (name : String) :
    (contents (interner.getOrIntern state name).2)[(interner.getOrIntern state name).1]? =
      some name := by
  rw [lawful.interned, lawful.symbol]
  split
  · next member => exact List.getElem?_idxOf member
  · next absent => rw [List.idxOf_eq_length absent, List.getElem?_concat_length]

theorem prefix_getOrIntern (state : σ) (name : String) :
    contents state <+: contents (interner.getOrIntern state name).2 := by
  rw [lawful.interned]
  split
  · exact List.prefix_refl _
  · exact List.prefix_append _ _

theorem nodup_getOrIntern {state : σ} (distinct : (contents state).Nodup) (name : String) :
    (contents (interner.getOrIntern state name).2).Nodup := by
  rw [lawful.interned]
  split
  · exact distinct
  · next absent =>
      exact List.nodup_append.mpr ⟨distinct, List.nodup_singleton name,
        fun x member y single => by
          rw [List.mem_singleton.mp single]
          rintro rfl
          exact absent member⟩

theorem getOrIntern_of_not_mem {state : σ} {name : String} (absent : name ∉ contents state) :
    (interner.getOrIntern state name).1 = (contents state).length := by
  rw [lawful.symbol, List.idxOf_eq_length absent]

/-! ### A list of names -/

theorem internAll_spec {state : σ} (distinct : (contents state).Nodup) (names : List String) :
    contents state <+: contents (interner.internAll state names).2 ∧
      (contents (interner.internAll state names).2).Nodup ∧
      (∀ x ∈ contents (interner.internAll state names).2, x ∈ contents state ∨ x ∈ names) ∧
      (interner.internAll state names).1.map
          (fun i => (contents (interner.internAll state names).2)[i]?) = names.map some := by
  induction names generalizing state with
  | nil => exact ⟨List.prefix_refl _, distinct, fun x member => Or.inl member, rfl⟩
  | cons name more ih =>
      obtain ⟨extended, stillDistinct, fromList, numbered⟩ :=
        ih (lawful.nodup_getOrIntern distinct name)
      rw [internAll_cons]
      refine ⟨(lawful.prefix_getOrIntern state name).trans extended, stillDistinct, ?_, ?_⟩
      · intro x member
        rcases fromList x member with earlier | listed
        · rw [lawful.interned] at earlier
          split at earlier
          · exact Or.inl earlier
          · rcases List.mem_append.mp earlier with old | single
            · exact Or.inl old
            · exact Or.inr (List.mem_cons.mpr (Or.inl (List.mem_singleton.mp single)))
        · exact Or.inr (List.mem_cons_of_mem name listed)
      · rw [List.map_cons, List.map_cons, numbered]
        congr 1
        exact getElem?_of_prefix extended (lawful.getElem?_getOrIntern state name)

/-! ### Sorting -/

/-- The entries that `finalize` sorts are the names with their positions. -/
theorem perm_swap_iter (state : σ) :
    ((interner.iter state).map Prod.swap).Perm (contents state).zipIdx := by
  have entries := (lawful.iter state).map Prod.swap
  rwa [List.map_map, Prod.swap_swap_eq, List.map_id] at entries

theorem perm_sortedEntries (state : σ) :
    (interner.sortedEntries state).Perm (contents state).zipIdx :=
  (List.mergeSort_perm _ _).trans (lawful.perm_swap_iter state)

theorem finalize_names_perm (state : σ) :
    (interner.finalize state).names.Perm (contents state) := by
  have names := (lawful.perm_sortedEntries state).map Prod.fst
  rwa [List.zipIdx_map_fst] at names

@[simp] theorem mem_finalize_names {state : σ} {x : String} :
    x ∈ (interner.finalize state).names ↔ x ∈ contents state :=
  (lawful.finalize_names_perm state).mem_iff

theorem finalize_names_sortedLT {state : σ} (distinct : (contents state).Nodup) :
    (interner.finalize state).names.SortedLT := by
  -- the names are the keys of the entries `sortedEntries` sorts, and no two are the same
  have keys := (lawful.perm_swap_iter state).map Prod.fst
  rw [List.zipIdx_map_fst] at keys
  exact Order.mergeSort_keys_sortedLT (fun _ _ => decide_eq_true_iff) (keys.nodup_iff.mpr distinct)

/-- The symbols in sorted order are the positions, each once. -/
theorem perm_sorted_symbols (state : σ) :
    ((interner.sortedEntries state).map Prod.snd).Perm (List.range (contents state).length) := by
  have symbols := (lawful.perm_sortedEntries state).map Prod.snd
  rwa [List.zipIdx_map_snd, ← List.range_eq_range'] at symbols

/-- Each symbol is written the position its name was sorted to. -/
theorem exists_finalize_position {state : σ} {old : Nat} (inRange : old < (contents state).length) :
    ∃ new, (interner.finalize state).oldToNew[old]? = some new ∧
      (interner.finalize state).names[new]? = (contents state)[old]? := by
  have permuted := lawful.perm_sorted_symbols state
  obtain ⟨new, bound, atNew⟩ :=
    List.getElem_of_mem (permuted.mem_iff.mpr (List.mem_range.mpr inRange))
  have entryBound : new < (interner.sortedEntries state).length := by
    rwa [List.length_map] at bound
  -- the entry at `new` holds the symbol `old` with its name
  have entry := (lawful.perm_sortedEntries state).subset (List.getElem_mem entryBound)
  rw [List.mem_zipIdx_iff_getElem?] at entry
  rw [List.getElem_map] at atNew
  refine ⟨new, ?_, ?_⟩
  · rw [finalize_oldToNew, ← atNew]
    have relabelled := Order.getElem?_relabel_of_perm permuted bound
    rwa [List.getElem_map] at relabelled
  · rw [finalize_names, List.getElem?_map, List.getElem?_eq_getElem entryBound, ← atNew, entry,
      Option.map_some]

theorem getElem?_oldToNew {state : σ} {old : Nat} (inRange : old < (contents state).length) :
    (interner.finalize state).oldToNew[old]? = some ((interner.finalize state).remap old) := by
  obtain ⟨new, written, -⟩ := lawful.exists_finalize_position inRange
  rw [written, SortedNames.remap, List.getD_eq_getElem?_getD, written, Option.getD_some]

theorem getElem?_remap {state : σ} {old : Nat} (inRange : old < (contents state).length) :
    (interner.finalize state).names[(interner.finalize state).remap old]? = (contents state)[old]? := by
  obtain ⟨new, written, named⟩ := lawful.exists_finalize_position inRange
  rw [SortedNames.remap, List.getD_eq_getElem?_getD, written, Option.getD_some, named]

theorem remap_lt {state : σ} {old : Nat} (inRange : old < (contents state).length) :
    (interner.finalize state).remap old < (interner.finalize state).names.length := by
  have named := lawful.getElem?_remap inRange
  rw [List.getElem?_eq_getElem inRange] at named
  exact (List.getElem?_eq_some_iff.mp named).1

theorem remap_injective {state : σ} (distinct : (contents state).Nodup) {a b : Nat}
    (aInRange : a < (contents state).length) (bInRange : b < (contents state).length)
    (same : (interner.finalize state).remap a = (interner.finalize state).remap b) : a = b := by
  have sameName : (contents state)[a]? = (contents state)[b]? := by
    rw [← lawful.getElem?_remap aInRange, ← lawful.getElem?_remap bInRange, same]
  rw [List.getElem?_eq_getElem aInRange, List.getElem?_eq_getElem bInRange] at sameName
  exact (List.Nodup.getElem_inj_iff distinct).mp (Option.some.inj sameName)

/-- Sorting takes the symbols one to one onto the sorted positions. -/
theorem oldToNew_perm_range (state : σ) :
    (interner.finalize state).oldToNew.Perm (List.range (contents state).length) := by
  rw [finalize_oldToNew]
  exact Order.relabel_perm_range (lawful.perm_sorted_symbols state)

/-! ### Interning a list into the empty interner -/

section FromEmpty

variable (names : List String)

theorem nodup_empty : (contents interner.empty).Nodup := by
  rw [lawful.empty]
  exact List.nodup_nil

theorem nodup_internAll_empty : (contents (interner.internAll interner.empty names).2).Nodup :=
  (lawful.internAll_spec lawful.nodup_empty names).2.1

theorem mem_internAll_empty {x : String} :
    x ∈ contents (interner.internAll interner.empty names).2 ↔ x ∈ names := by
  obtain ⟨-, -, fromList, numbered⟩ := lawful.internAll_spec lawful.nodup_empty names
  constructor
  · intro member
    rcases fromList x member with inEmpty | listed
    · rw [lawful.empty] at inEmpty
      cases inEmpty
    · exact listed
  · intro listed
    have named : some x ∈ (interner.internAll interner.empty names).1.map
        (fun i => (contents (interner.internAll interner.empty names).2)[i]?) := by
      rw [numbered]
      exact List.mem_map_of_mem listed
    obtain ⟨i, -, found⟩ := List.mem_map.mp named
    exact List.mem_of_getElem? found

/-- An interner holds each name interned into it once: as many names as distinct ones were
interned. -/
theorem length_internAll_empty :
    (contents (interner.internAll interner.empty names).2).length = names.dedup.length := by
  have samePerm : (contents (interner.internAll interner.empty names).2).Perm names.dedup :=
    (List.perm_ext_iff_of_nodup (lawful.nodup_internAll_empty names) (List.nodup_dedup names)).mpr
      fun x => by rw [lawful.mem_internAll_empty, List.mem_dedup]
  exact samePerm.length_eq

/-- The name at position `i` gets a symbol that names it in the interner. -/
theorem exists_symbol_internAll {i : Nat} {x : String} (found : names[i]? = some x) :
    ∃ old, (interner.internAll interner.empty names).1[i]? = some old ∧
      (contents (interner.internAll interner.empty names).2)[old]? = some x := by
  obtain ⟨-, -, -, numbered⟩ := lawful.internAll_spec lawful.nodup_empty names
  have atI := congrArg (·[i]?) numbered
  simp only [List.getElem?_map, found, Option.map_some] at atI
  exact Option.map_eq_some_iff.mp atI

/-- The symbol given to the name at position `i` is the position of that name in the
interner. -/
theorem getElem?_internAll_eq_idxOf {i : Nat} {x : String} (found : names[i]? = some x) :
    (interner.internAll interner.empty names).1[i]? =
      some ((contents (interner.internAll interner.empty names).2).idxOf x) := by
  obtain ⟨number, numberFound, named⟩ := lawful.exists_symbol_internAll names found
  obtain ⟨inRange, rfl⟩ := List.getElem?_eq_some_iff.mp named
  rw [numberFound, (lawful.nodup_internAll_empty names).idxOf_getElem number inRange]

/-- A name met for the first time gets the number of distinct names met before it. -/
theorem getElem?_internAll_of_new {i : Nat} {x : String} (found : names[i]? = some x)
    (new : x ∉ names.take i) :
    (interner.internAll interner.empty names).1[i]? = some (names.take i).dedup.length := by
  obtain ⟨inRange, rfl⟩ := List.getElem?_eq_some_iff.mp found
  have split : names = names.take i ++ names[i] :: names.drop (i + 1) := by
    simp
  have absent : names[i] ∉ contents (interner.internAll interner.empty (names.take i)).2 := by
    rw [lawful.mem_internAll_empty]
    exact new
  have earlier : (interner.internAll interner.empty (names.take i)).1.length = i := by
    rw [length_internAll, List.length_take]
    omega
  -- the symbols of the names before position `i` come first, then the new name's
  have atI : (interner.internAll interner.empty names).1[i]? =
      some (interner.getOrIntern (interner.internAll interner.empty (names.take i)).2 names[i]).1 := by
    conv_lhs => rw [split]
    rw [internAll_append, internAll_cons, List.getElem?_append_right (Nat.le_of_eq earlier),
      earlier, Nat.sub_self, List.getElem?_cons_zero]
  rw [atI, lawful.getOrIntern_of_not_mem absent, lawful.length_internAll_empty]

/-- A name met again gets the number it got the first time. -/
theorem getElem?_internAll_of_seen {i : Nat} {x : String} (found : names[i]? = some x) :
    (interner.internAll interner.empty names).1[i]? =
      (interner.internAll interner.empty names).1[names.idxOf x]? := by
  have listed : x ∈ names := List.mem_of_getElem? found
  have atFirst : names[names.idxOf x]? = some x := List.getElem?_idxOf listed
  rw [lawful.getElem?_internAll_eq_idxOf names found, lawful.getElem?_internAll_eq_idxOf names atFirst]

/-- Relabelling the symbol of an interned name gives its position among the sorted names. -/
theorem sorted_name_of_internAll {i : Nat} {x : String} (found : names[i]? = some x) :
    ∃ old new, (interner.internAll interner.empty names).1[i]? = some old ∧
      (interner.finalize (interner.internAll interner.empty names).2).oldToNew[old]? = some new ∧
      (interner.finalize (interner.internAll interner.empty names).2).names[new]? = some x := by
  obtain ⟨old, oldFound, named⟩ := lawful.exists_symbol_internAll names found
  have inRange : old < (contents (interner.internAll interner.empty names).2).length :=
    (List.getElem?_eq_some_iff.mp named).1
  exact ⟨old, _, oldFound, lawful.getElem?_oldToNew inRange,
    (lawful.getElem?_remap inRange).trans named⟩

end FromEmpty

end FirstUse

end StringInterner

namespace NameTable

/-- The list-backed interner keeps the contract: its names, in first-use order, are its
list. -/
theorem firstUse : interner.FirstUse NameTable.names where
  empty := rfl
  symbol table name := by
    simp only [interner]
    split
    · next index found =>
        rw [List.idxOf?, List.findIdx?_eq_some_iff_findIdx_eq] at found
        exact found.2.symm
    · next missing => exact (List.idxOf_eq_length (List.idxOf?_eq_none_iff.mp missing)).symm
  interned table name := by
    simp only [interner]
    split
    · next index found =>
        have member : name ∈ table.names := List.isSome_idxOf?.mp (by rw [found]; rfl)
        rw [if_pos member]
    · next missing => rw [if_neg (List.idxOf?_eq_none_iff.mp missing)]
  iter _ := List.Perm.refl _
  len _ := rfl

theorem internAll_spec {table : NameTable} (distinct : table.names.Nodup) (names : List String) :
    table.names <+: (table.internAll names).2.names ∧ (table.internAll names).2.names.Nodup ∧
      (∀ x ∈ (table.internAll names).2.names, x ∈ table.names ∨ x ∈ names) ∧
      (table.internAll names).1.map ((table.internAll names).2.names[·]?) = names.map some :=
  firstUse.internAll_spec distinct names

theorem sorted_names_sortedLT {table : NameTable} (distinct : table.names.Nodup) :
    table.sorted.names.SortedLT :=
  firstUse.finalize_names_sortedLT distinct

@[simp] theorem mem_sorted_names {table : NameTable} {x : String} :
    x ∈ table.sorted.names ↔ x ∈ table.names :=
  firstUse.mem_finalize_names

theorem remap_lt {table : NameTable} {old : Nat} (inRange : old < table.size) :
    table.sorted.remap old < table.sorted.names.length :=
  firstUse.remap_lt inRange

theorem getElem?_remap {table : NameTable} {old : Nat} (inRange : old < table.size) :
    table.sorted.names[table.sorted.remap old]? = table.names[old]? :=
  firstUse.getElem?_remap inRange

theorem remap_injective {table : NameTable} (distinct : table.names.Nodup) {a b : Nat}
    (aInRange : a < table.size) (bInRange : b < table.size)
    (same : table.sorted.remap a = table.sorted.remap b) : a = b :=
  firstUse.remap_injective distinct aInRange bInRange same

/-- The numbers `indexes` are numbers of `table`, and the names they number are exactly those
that `holds`. -/
structure Lists (table : NameTable) (indexes : List Nat) (holds : String → Prop) : Prop where
  inRange : ∀ i ∈ indexes, i < table.size
  exact : ∀ x, (∃ i ∈ indexes, table.names[i]? = some x) ↔ holds x

theorem Lists.mono {table table' : NameTable} {indexes : List Nat} {holds : String → Prop}
    (extended : table.names <+: table'.names) (listed : table.Lists indexes holds) :
    table'.Lists indexes holds where
  inRange i member := Nat.lt_of_lt_of_le (listed.inRange i member) extended.length_le
  exact x := by
    rw [← listed.exact x]
    constructor
    · rintro ⟨i, member, found⟩
      have inRange : i < table.names.length := listed.inRange i member
      refine ⟨i, member, ?_⟩
      rw [List.getElem?_eq_getElem inRange, extended.getElem inRange, ← List.getElem?_eq_getElem]
      exact found
    · rintro ⟨i, member, found⟩
      exact ⟨i, member, getElem?_of_prefix extended found⟩

theorem Lists.congr {table : NameTable} {indexes : List Nat} {holds holds' : String → Prop}
    (listed : table.Lists indexes holds) (same : ∀ x, holds x ↔ holds' x) :
    table.Lists indexes holds' where
  inRange := listed.inRange
  exact x := (listed.exact x).trans (same x)

theorem Lists.append {table : NameTable} {first second : List Nat} {holds holds' : String → Prop}
    (listedFirst : table.Lists first holds) (listedSecond : table.Lists second holds') :
    table.Lists (first ++ second) (fun x => holds x ∨ holds' x) where
  inRange i member := by
    rcases List.mem_append.mp member with inFirst | inSecond
    · exact listedFirst.inRange i inFirst
    · exact listedSecond.inRange i inSecond
  exact x := by
    rw [← listedFirst.exact x, ← listedSecond.exact x]
    constructor
    · rintro ⟨i, member, found⟩
      rcases List.mem_append.mp member with inFirst | inSecond
      · exact Or.inl ⟨i, inFirst, found⟩
      · exact Or.inr ⟨i, inSecond, found⟩
    · rintro (⟨i, inFirst, found⟩ | ⟨i, inSecond, found⟩)
      · exact ⟨i, List.mem_append_left second inFirst, found⟩
      · exact ⟨i, List.mem_append_right first inSecond, found⟩

theorem Lists.sortNats {table : NameTable} {indexes : List Nat} {holds : String → Prop}
    (listed : table.Lists indexes holds) : table.Lists (Order.sortNats indexes) holds where
  inRange i member := listed.inRange i (Order.mem_sortNats.mp member)
  exact x := by
    rw [← listed.exact x]
    simp only [Order.mem_sortNats]

theorem internAll_lists {table : NameTable} (distinct : table.names.Nodup) (names : List String) :
    (table.internAll names).2.Lists (table.internAll names).1 (· ∈ names) := by
  obtain ⟨-, -, -, numbered⟩ := internAll_spec distinct names
  constructor
  · intro i member
    have named : (table.internAll names).2.names[i]? ∈ names.map some := by
      rw [← numbered]
      exact List.mem_map_of_mem member
    obtain ⟨x, -, found⟩ := List.mem_map.mp named
    exact (List.getElem?_eq_some_iff.mp found.symm).1
  · intro x
    constructor
    · rintro ⟨i, member, found⟩
      have named : some x ∈ names.map some := by
        rw [← numbered, ← found]
        exact List.mem_map_of_mem member
      simpa using named
    · intro listed
      have named : some x ∈ (table.internAll names).1.map ((table.internAll names).2.names[·]?) := by
        rw [numbered]
        exact List.mem_map_of_mem listed
      obtain ⟨i, member, found⟩ := List.mem_map.mp named
      exact ⟨i, member, found⟩

/-- Interning a list numbers its names densely in first-use order, and sorting relabels those
numbers bijectively by the names' sorted positions. -/
theorem interning_numbers_by_first_use_and_sorting_relabels (names : List String) :
    let interned := ({} : NameTable).internAll names
    (∀ (i : Nat) (x : String), names[i]? = some x → x ∉ names.take i →
        interned.1[i]? = some (names.take i).dedup.length) ∧
      (∀ (i : Nat) (x : String), names[i]? = some x → x ∈ names.take i →
        interned.1[i]? = interned.1[names.idxOf x]?) ∧
      interned.2.size = names.dedup.length ∧
      interned.2.sorted.names.SortedLT ∧ (∀ x, x ∈ interned.2.sorted.names ↔ x ∈ names) ∧
      interned.2.sorted.oldToNew.Perm (List.range interned.2.size) ∧
      ∀ (i : Nat) (x : String), names[i]? = some x → ∃ old new, interned.1[i]? = some old ∧
        interned.2.sorted.oldToNew[old]? = some new ∧ interned.2.sorted.names[new]? = some x := by
  have distinct := firstUse.nodup_internAll_empty names
  refine ⟨fun i x found new => firstUse.getElem?_internAll_of_new names found new,
    fun i x found _ => firstUse.getElem?_internAll_of_seen names found,
    firstUse.length_internAll_empty names, firstUse.finalize_names_sortedLT distinct,
    fun x => firstUse.mem_finalize_names.trans (firstUse.mem_internAll_empty names),
    firstUse.oldToNew_perm_range _, fun i x found => firstUse.sorted_name_of_internAll names found⟩

end NameTable

end RealmAccess
