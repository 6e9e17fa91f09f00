import RealmAccess.Error
import RealmAccess.Config.Basic
/-!
# Numbering names and conditions

While realms are expanded, permissions and conditions are handled as numbers, given in the
order they are first met; at the end each list is sorted and every number is relabelled with
the position of what it numbers in sorted order.
-/

/-! ## Sorted lists without repeats

Results of expansion are canonical: every list of names or numbers in them is sorted and holds
each element once, and lists of lists are ordered lexicographically, a proper prefix first. This
module holds those two orders' operations, and the relabelling that takes numbers given before a
sort to positions after it.
-/

namespace RealmAccess.Order

variable {α : Type}

/-- A list with each run of equal neighbours kept once. -/
def dropRepeats [DecidableEq α] : List α → List α
  | [] => []
  | [a] => [a]
  | a :: rest@(b :: _) => if a = b then dropRepeats rest else a :: dropRepeats rest

/-- A list sorted by `le`, each element kept once. -/
def sortDistinct [DecidableEq α] (le : α → α → Bool) (items : List α) : List α :=
  dropRepeats (items.mergeSort le)

/-- Strings in increasing order, each once. -/
def sortStrings (items : List String) : List String :=
  sortDistinct (fun a b => decide (a ≤ b)) items

/-- Numbers in increasing order, each once. -/
def sortNats (items : List Nat) : List Nat :=
  sortDistinct (fun a b => decide (a ≤ b)) items

/-- The inverse of a sorting permutation, filled in as an array is: `olds` gives, for each
position in sorted order, the number its element had before sorting, and the result holds at
each number the last position written there, `0` where nothing was written. -/
def relabel (olds : List Nat) : List Nat :=
  olds.zipIdx.foldl (fun acc (old, new) => acc.set old new) (List.replicate olds.length 0)

/-- Lexicographic comparison of lists by a comparison of elements: a proper prefix comes
first. -/
def compareLex (cmp : α → α → Ordering) : List α → List α → Ordering
  | [], [] => .eq
  | [], _ :: _ => .lt
  | _ :: _, [] => .gt
  | a :: as, b :: bs =>
      match cmp a b with
      | .eq => compareLex cmp as bs
      | other => other

end RealmAccess.Order

/-! ## Numbering names

While realms are expanded, permissions are handled as numbers that a string interner gives: a
name seen for the first time is interned and gets a new symbol, and a name seen again gets the
same symbol. `StringInterner` is what expansion asks of an interner; symbols are read as
numbers. At the end `StringInterner.finalize` sorts the interned names by name and takes each
symbol to the position of its name in sorted order.

Expansion runs on `NameTable.interner`, which keeps the interned names in a list, in the order
they were first interned, and gives each name its position there as its symbol.
-/

namespace RealmAccess

/-- What expansion asks of a string interner with states `σ`. -/
structure StringInterner (σ : Type) where
  /-- The interner that holds no name. -/
  empty : σ
  /-- The symbol of a name, interning the name first if it is new. -/
  getOrIntern : σ → String → Nat × σ
  /-- Every interned name with its symbol. -/
  iter : σ → List (Nat × String)
  /-- How many names are interned. -/
  len : σ → Nat

/-- The interned names in sorted order, and for each symbol the position of its name there. -/
structure SortedNames where
  names : List String
  oldToNew : List Nat
  deriving Repr

/-- The position in sorted order of the name of a symbol. -/
def SortedNames.remap (sorted : SortedNames) (old : Nat) : Nat :=
  sorted.oldToNew.getD old 0

namespace StringInterner

variable {σ : Type} (interner : StringInterner σ)

/-- Interns names in order, giving their symbols. -/
def internAll (state : σ) : List String → List Nat × σ
  | [] => ([], state)
  | name :: more =>
      let (symbol, state) := interner.getOrIntern state name
      let (symbols, state) := internAll state more
      (symbol :: symbols, state)

/-- The interned names, each with its symbol, sorted by name. -/
def sortedEntries (state : σ) : List (String × Nat) :=
  ((interner.iter state).map Prod.swap).mergeSort fun a b => decide (a.1 ≤ b.1)

/-- Sorts the interned names and writes at each symbol the position its name was sorted to. -/
def finalize (state : σ) : SortedNames :=
  let entries := interner.sortedEntries state
  { names := entries.map (·.1), oldToNew := Order.relabel (entries.map (·.2)) }

end StringInterner

/-- Names in first-use order: a name's symbol is its position. -/
structure NameTable where
  names : List String := []
  deriving Repr, Inhabited

namespace NameTable

/-- The interner that keeps its names in a list and gives a new name the next position. -/
def interner : StringInterner NameTable where
  empty := {}
  getOrIntern table name :=
    match table.names.idxOf? name with
    | some index => (index, table)
    | none => (table.names.length, { names := table.names ++ [name] })
  iter table := table.names.zipIdx.map Prod.swap
  len table := table.names.length

/-- The number of a name, giving it the next number if it is new. -/
def intern (table : NameTable) (name : String) : Nat × NameTable :=
  interner.getOrIntern table name

/-- Numbers names in order. -/
def internAll (table : NameTable) (names : List String) : List Nat × NameTable :=
  interner.internAll table names

/-- How many names are numbered. -/
def size (table : NameTable) : Nat :=
  interner.len table

/-- The numbered names in sorted order, with each number's new position. -/
def sorted (table : NameTable) : SortedNames :=
  interner.finalize table

end NameTable

/-! ## Numbering conditions

Every condition slot of the working realm list is registered once, before any realm is
walked. A condition is normalized (its values sorted, each once), and conditions equal after
normalizing share a number, given in first-seen order; a slot registered again keeps its number.
At the end the distinct conditions are sorted by attribute and then values, and each slot is
renumbered to its condition's position there: a `ConditionIndex`. Numbers are 32-bit, so past
`2 ^ 32` distinct conditions they wrap and no longer tell conditions apart.
-/

/-- A restriction with its values sorted and each kept once. -/
def Restriction.normalize (r : Restriction) : Restriction :=
  { r with values := Order.sortStrings r.values }

/-- The order of normalized conditions: by attribute, then by values lexicographically. -/
def Restriction.compare (a b : Restriction) : Ordering :=
  match Ord.compare a.attributeName b.attributeName with
  | .eq => Order.compareLex Ord.compare a.values b.values
  | other => other

/-- Conditions being registered: the distinct normalized conditions in first-seen order, and
each registered slot with its number. The condition at position `k` has the number `k` cut to
32 bits, the count of conditions before it when it was first seen. -/
structure ConditionTable where
  conditions : List Restriction := []
  slots : List (Slot × UInt32) := []
  deriving Repr, Inhabited

/-- Slots with their final condition numbers. -/
structure ConditionIndex where
  slots : List (Slot × UInt32) := []
  deriving Repr, Inhabited

namespace ConditionTable

/-- Registers the condition of a slot and gives its number. A slot already registered keeps its
number, whatever the condition; an empty condition is refused and leaves the table as it was.
A new condition's number is the count of conditions so far, cut to 32 bits. -/
def add (table : ConditionTable) (slot : Slot) (condition : Condition) :
    Except ExpandError (UInt32 × ConditionTable) :=
  match table.slots.lookup slot with
  | some index => .ok (index, table)
  | none =>
      match condition.restrict with
      | none => .error (.emptyCondition slot)
      | some restriction =>
          let normal := restriction.normalize
          match table.conditions.idxOf? normal with
          | some position =>
              .ok (position.toUInt32,
                { table with slots := table.slots ++ [(slot, position.toUInt32)] })
          | none =>
              let index := table.conditions.length.toUInt32
              .ok (index, { conditions := table.conditions ++ [normal],
                            slots := table.slots ++ [(slot, index)] })

/-- Registers slots one after another; each answer stands on its own, a refused slot leaving
the table as it was. -/
def addEach (table : ConditionTable) :
    List (Slot × Condition) → List (Except ExpandError UInt32) × ConditionTable
  | [] => ([], table)
  | (slot, condition) :: more =>
      let (answer, table) :=
        match table.add slot condition with
        | .ok (index, table') => (Except.ok index, table')
        | .error e => (Except.error e, table)
      let (answers, table) := table.addEach more
      (answer :: answers, table)

/-- How many distinct conditions are registered. -/
def size (table : ConditionTable) : Nat :=
  table.conditions.length

/-- The distinct conditions in sorted order. -/
def sortedConditions (table : ConditionTable) : List Restriction :=
  table.conditions.mergeSort fun a b => a.compare b != .gt

/-- Sorts the conditions and renumbers the slots: the number of each condition is written over
with its position in sorted order, cut to 32 bits, and each slot takes the number written over
its own. Once numbers have wrapped, two conditions share a number and the one sorted last keeps
it. -/
def finalize (table : ConditionTable) : ConditionIndex × List Restriction :=
  let sorted := table.sortedConditions
  let oldToNew := Order.relabel
    (sorted.map fun condition => (table.conditions.idxOf condition).toUInt32.toNat)
  ({ slots := table.slots.map fun (slot, old) => (slot, (oldToNew.getD old.toNat 0).toUInt32) },
    sorted)

end ConditionTable

namespace ConditionIndex

/-- The final number of a slot's condition. -/
def index (ix : ConditionIndex) (slot : Slot) : Except ExpandError UInt32 :=
  match ix.slots.lookup slot with
  | some index => .ok index
  | none => .error (.unknownCondition slot)

/-- The numbers of the conditions of several slots, as naturals, sorted and each once: the
conditions that must all hold. -/
def indexes (ix : ConditionIndex) : List Slot → Except ExpandError (List Nat)
  | [] => .ok []
  | [slot] => (ix.index slot).map fun index => [index.toNat]
  | slots => (slots.mapM ix.index).map fun numbers => Order.sortNats (numbers.map UInt32.toNat)

end ConditionIndex

end RealmAccess
