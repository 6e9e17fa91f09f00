import RealmAccess.Json.Skip
/-!
# Reading JSON values

Decoders of typed values, records among them, and the check of an object whose members are
read later.
-/

/-! ## Decoders

A `Decoder α` reads one JSON value of type `α` from the front of a text, blanks before it
included, and returns the value with the rest of the text, which is always shorter. Decoders
for strings, booleans, optional values and lists are given here, and one for records: a record
is read from an object, whose keys name its fields in any order, or from an array, whose
elements are its fields in declaration order.

Errors are reported in text order, as they are met. A value of the wrong kind is named in the
message (`invalid type: integer 5, expected a string`), and is read as far as that takes.
-/

namespace RealmAccess.Json

/-- A number as it is named in a message. -/
def Number.toUnexpected : Number → Unexpected
  | .unsigned n => .unsigned n
  | .signed i => .signed i
  | .float x => .float x

/-- Reads the value at the front of a blank-free text far enough to name its kind; reading it may
itself fail. -/
def Unexpected.read : List Char → Except Error Unexpected
  | [] => .error (.malformed .expectedValue)
  | c :: rest =>
      if c = 'n' then (expectWord ['u', 'l', 'l'] rest).map fun _ => .null
      else if c = 't' then (expectWord ['r', 'u', 'e'] rest).map fun _ => .bool true
      else if c = 'f' then (expectWord ['a', 'l', 's', 'e'] rest).map fun _ => .bool false
      else if c = '-' then (readNumber false rest).map Number.toUnexpected
      else if c.isDigit then (readNumber true (c :: rest)).map Number.toUnexpected
      else if c = '"' then (readString rest).map fun (str, _) => .string str
      else if c = '[' then .ok .seq
      else if c = '{' then .ok .map
      else .error (.malformed .expectedValue)

/-- The error for a value of the wrong kind at the front of a blank-free text. -/
def mismatch (s : List Char) (expected : String) : Error :=
  match Unexpected.read s with
  | .ok found => .invalidType found expected
  | .error e => e

/-- A reader of one value of type `α` at the front of a text. -/
structure Decoder (α : Type) where
  run : (s : List Char) → Except Error (α × Rest s)

namespace Decoder

variable {α β : Type}

/-- A decoder whose value is transformed by `f`. -/
def map (f : α → β) (d : Decoder α) : Decoder β :=
  ⟨fun s => (d.run s).map fun (a, r) => (f a, r)⟩

/-- A string. -/
def string : Decoder String :=
  ⟨fun s =>
    match blankTail s with
    | ⟨[], _⟩ => .error (.eof .value)
    | ⟨c :: rest, h⟩ =>
        if c = '"' then
          (readString rest).map fun (str, r) => (str, r.within (rest_le_of_cons h))
        else .error (mismatch (c :: rest) "a string")⟩

/-- A boolean. -/
def bool : Decoder Bool :=
  ⟨fun s =>
    match blankTail s with
    | ⟨[], _⟩ => .error (.eof .value)
    | ⟨c :: rest, h⟩ =>
        if c = 't' then
          (expectWord ['r', 'u', 'e'] rest).map fun r =>
            (true, r.strictWithin (rest_lt_of_cons h))
        else if c = 'f' then
          (expectWord ['a', 'l', 's', 'e'] rest).map fun r =>
            (false, r.strictWithin (rest_lt_of_cons h))
        else .error (mismatch (c :: rest) "a boolean")⟩

/-- A number as a `u32` is taken: an integer from `0` to `2 ^ 32 - 1`; any other integer is a
value out of range, and a double a value of the wrong kind. -/
def Number.toU32 : Number → Except Error Nat
  | .unsigned n => if n ≤ 0xFFFFFFFF then .ok n else .error (.invalidValue (.unsigned n) "u32")
  | .signed i =>
      if 0 ≤ i ∧ i ≤ 0xFFFFFFFF then .ok i.toNat else .error (.invalidValue (.signed i) "u32")
  | .float x => .error (.invalidType (.float x) "u32")

/-- A `u32`: a number read in full, then taken as a `u32`. An integer ends after its digits. -/
def u32 : Decoder Nat :=
  ⟨fun s =>
    match blankTail s with
    | ⟨[], _⟩ => .error (.eof .value)
    | ⟨c :: rest, h⟩ =>
        if c = '-' ∨ c.isDigit then
          let number := if c = '-' then readNumber false rest else readNumber true (c :: rest)
          (number >>= Number.toU32).map fun n =>
            (n, ⟨rest.dropWhile Char.isDigit,
              by have := length_dropWhile_le Char.isDigit rest; simp at h; omega⟩)
        else .error (mismatch (c :: rest) "u32")⟩

/-- An optional value: `null`, or a value of `d`. -/
def option (d : Decoder α) : Decoder (Option α) :=
  ⟨fun s =>
    match blankTail s with
    | ⟨'n' :: rest, h⟩ =>
        (expectWord ['u', 'l', 'l'] rest).map fun r =>
          (none, r.strictWithin (rest_lt_of_cons h))
    | _ => (d.run s).map fun (a, r) => (some a, r)⟩

/-! ### Sequences -/

/-- Where the next element of a sequence starts, after the comma that must separate it from the
one before; `none` before the closing bracket, which is left unread. -/
def nextElement (first : Bool) (s : List Char) : Except Error (Option (Tail s)) :=
  match blankTail s with
  | ⟨[], _⟩ => .error (.eof .list)
  | ⟨c :: rest, h⟩ =>
      if c = ']' then .ok none
      else if c = ',' ∧ !first then
        match blankTail rest with
        | ⟨[], _⟩ => .error (.eof .value)
        | ⟨d :: more, h'⟩ =>
            if d = ']' then .error (.malformed .trailingComma)
            else .ok (some ⟨d :: more, by simp at h h' ⊢; omega⟩)
      else if first then .ok (some ⟨c :: rest, h⟩)
      else .error (.malformed .expectedListCommaOrEnd)

/-- The closing bracket after the last wanted element of a sequence. -/
def closeSeq (s : List Char) : Except Error (Rest s) :=
  match blankTail s with
  | ⟨[], _⟩ => .error (.eof .list)
  | ⟨c :: rest, h⟩ =>
      if c = ']' then .ok ⟨rest, rest_lt_of_cons h⟩
      else if c = ',' then
        match skipBlank rest with
        | ']' :: _ => .error (.malformed .trailingComma)
        | _ => .error (.malformed .trailingCharacters)
      else .error (.malformed .trailingCharacters)

/-- The elements of a sequence up to and including its closing bracket, after those already
read (`acc`, last first). -/
def elements (d : Decoder α) (acc : List α) (first : Bool) (s : List Char) :
    Except Error (List α × Tail s) :=
  match nextElement first s with
  | .error e => .error e
  | .ok none => (closeSeq s).map fun r => (acc.reverse, ⟨r.1, Nat.le_of_lt r.2⟩)
  | .ok (some ⟨t, ht⟩) =>
      match d.run t with
      | .error e => .error e
      | .ok (a, ⟨r, hr⟩) =>
          (elements d (a :: acc) false r).map fun (items, q) =>
            (items, q.within (by omega))
termination_by s.length
decreasing_by omega

/-- A list, each element read by `d`. -/
def list (d : Decoder α) : Decoder (List α) :=
  ⟨fun s =>
    match blankTail s with
    | ⟨[], _⟩ => .error (.eof .value)
    | ⟨c :: rest, h⟩ =>
        if c = '[' then
          (elements d [] true rest).map fun (items, r) =>
            (items, r.strictWithin (rest_lt_of_cons h))
        else .error (mismatch (c :: rest) "a sequence")⟩

/-! ### Records -/

end Decoder

/-- A field of a record of type `α`, read with readers `ρ`: its name, whether a record may leave
it out, and a reader of its value that says how to store it in a record. -/
structure Field (ρ : Type → Type) (α : Type) where
  name : String
  optional : Bool
  read : ρ (α → α)

namespace Decoder

variable {α : Type}

/-- The next key of an object and the text after it, after the comma that must separate it from
the entry before; `none` before the closing brace, which is left unread. -/
def nextKey (first : Bool) (s : List Char) : Except Error (Option (String × Rest s)) :=
  match blankTail s with
  | ⟨[], _⟩ => .error (.eof .object)
  | ⟨c :: rest, h⟩ =>
      if c = '}' then .ok none
      else if c = ',' ∧ !first then
        match blankTail rest with
        | ⟨[], _⟩ => .error (.eof .value)
        | ⟨d :: more, h'⟩ =>
            if d = '"' then
              (readString more).map fun (key, r) =>
                some (key, r.within (by simp at h h' ⊢; omega))
            else if d = '}' then .error (.malformed .trailingComma)
            else .error (.malformed .keyMustBeAString)
      else if first then
        if c = '"' then
          (readString rest).map fun (key, r) => some (key, r.within (rest_le_of_cons h))
        else .error (.malformed .keyMustBeAString)
      else .error (.malformed .expectedObjectCommaOrEnd)

/-- The colon between a key and its value. -/
def colon (s : List Char) : Except Error (Rest s) :=
  match blankTail s with
  | ⟨[], _⟩ => .error (.eof .object)
  | ⟨c :: rest, h⟩ =>
      if c = ':' then .ok ⟨rest, rest_lt_of_cons h⟩
      else .error (.malformed .expectedColon)

/-- The closing brace of an object. -/
def closeMap (s : List Char) : Except Error (Rest s) :=
  match blankTail s with
  | ⟨[], _⟩ => .error (.eof .object)
  | ⟨c :: rest, h⟩ =>
      if c = '}' then .ok ⟨rest, rest_lt_of_cons h⟩
      else if c = ',' then .error (.malformed .trailingComma)
      else .error (.malformed .trailingCharacters)

/-- The entries of an object up to its closing brace, stored into `value`; `seen` lists the
fields read so far. A field named twice is refused as soon as its key is read, before the colon;
the value of a key that names no field is skipped. -/
def entries (fields : List (Field Decoder α)) (value : α) (seen : List String) (first : Bool)
    (s : List Char) : Except Error (α × List String × Tail s) :=
  match nextKey first s with
  | .error e => .error e
  | .ok none => .ok (value, seen, ⟨s, Nat.le_refl _⟩)
  | .ok (some (key, ⟨afterKey, hk⟩)) =>
      let known := fields.find? (·.name == key)
      if known.isSome && seen.contains key then .error (.duplicateField key)
      else
        match colon afterKey with
        | .error e => .error e
        | .ok ⟨afterColon, hc⟩ =>
            match known with
            | some field =>
                match field.read.run afterColon with
                | .error e => .error e
                | .ok (store, ⟨r, hr⟩) =>
                    (entries fields (store value) (key :: seen) false r).map
                      fun (v, names, q) => (v, names, q.within (by omega))
            | none =>
                match skipValue afterColon with
                | .error e => .error e
                | .ok ⟨r, hr⟩ =>
                    (entries fields value seen false r).map
                      fun (v, names, q) => (v, names, q.within (by omega))
termination_by s.length
decreasing_by all_goals omega

/-- How a record with `count` fields is named when an array holds too few elements. -/
def withElements (what : String) (count : Nat) : String :=
  what ++ " with " ++ toString count ++ (if count = 1 then " element" else " elements")

/-- The fields of a record read from the elements of an array, in declaration order, stopping
before the closing bracket. A field that may be left out takes its default when the array ends
before it; any other missing field makes the array too short. -/
def positional (what : String) (count : Nat) :
    (fields : List (Field Decoder α)) → (value : α) → (index : Nat) → (first : Bool) →
    (s : List Char) → Except Error (α × Tail s)
  | [], value, _, _, s => .ok (value, ⟨s, Nat.le_refl _⟩)
  | field :: more, value, index, first, s =>
      match nextElement first s with
      | .error e => .error e
      | .ok none =>
          if field.optional then positional what count more value (index + 1) first s
          else .error (.invalidLength index (withElements what count))
      | .ok (some ⟨t, ht⟩) =>
          match field.read.run t with
          | .error e => .error e
          | .ok (store, ⟨r, hr⟩) =>
              (positional what count more (store value) (index + 1) false r).map
                fun (v, q) => (v, q.within (by omega))

/-- A record named `what` in messages, with the given fields and the defaults of `start`: an
object with a key for each field that may not be left out, or an array of the fields in order. -/
def record (what : String) (fields : List (Field Decoder α)) (start : α) : Decoder α :=
  ⟨fun s =>
    match blankTail s with
    | ⟨[], _⟩ => .error (.eof .value)
    | ⟨c :: rest, h⟩ =>
        have hs : rest.length < s.length := rest_lt_of_cons h
        if c = '{' then
          match entries fields start [] true rest with
          | .error e => .error e
          | .ok (value, seen, ⟨t, ht⟩) =>
              match fields.find? (fun field => !field.optional && !seen.contains field.name) with
              | some field => .error (.missingField field.name)
              | none => (closeMap t).map fun r => (value, r.within (by omega))
        else if c = '[' then
          match positional what fields.length fields start 0 true rest with
          | .error e => .error e
          | .ok (value, ⟨t, ht⟩) => (closeSeq t).map fun r => (value, r.within (by omega))
        else .error (mismatch (c :: rest) what)⟩

/-- Reads a whole text as one value of `d`: blanks may follow it, nothing else. -/
def parse (d : Decoder α) (text : String) : Except Error α :=
  match d.run text.toList with
  | .error e => .error e
  | .ok (a, r) => if (skipBlank r.1).isEmpty then .ok a else .error (.malformed .trailingCharacters)

/-! ## Objects of unread members

Some texts are objects whose members are taken apart later, one by one: at first only their
shape is checked. Such an object's keys are decoded in full, but each member's value is read
only to find where it ends, as the value of an undeclared field is, so its brackets nest without
limit. Separators follow the same rules as for the objects that records are read from.

`checkObject` checks a text that must be one such object, followed by blanks only.
-/

/-- A value read only to find where it ends. -/
def skipped : Decoder Unit :=
  ⟨fun s => (skipValue s).map fun r => ((), r)⟩

/-- The entries of an object with any keys, up to and including its closing brace, each value
read by `d`. -/
def members (d : Decoder Unit) (first : Bool) (s : List Char) : Except Error (Tail s) :=
  match nextKey first s with
  | .error e => .error e
  | .ok none => (closeMap s).map fun r => ⟨r.1, Nat.le_of_lt r.2⟩
  | .ok (some (_, ⟨afterKey, hk⟩)) =>
      match colon afterKey with
      | .error e => .error e
      | .ok ⟨afterColon, hc⟩ =>
          match d.run afterColon with
          | .error e => .error e
          | .ok ((), ⟨r, hr⟩) => (members d false r).map fun q => q.within (by omega)
termination_by s.length
decreasing_by omega

/-- An object with any keys, its values read by `d`; a value of another kind is refused as not
a map. -/
def anyObject (d : Decoder Unit) : Decoder Unit :=
  ⟨fun s =>
    match blankTail s with
    | ⟨[], _⟩ => .error (.eof .value)
    | ⟨c :: rest, h⟩ =>
        if c = '{' then (members d true rest).map fun r => ((), r.strictWithin (rest_lt_of_cons h))
        else .error (mismatch (c :: rest) "a map")⟩

end Decoder

/-- Checks that a text is one object of unread members followed by blanks only. -/
def checkObject (text : String) : Except Error Unit :=
  (Decoder.anyObject Decoder.skipped).parse text

end RealmAccess.Json
