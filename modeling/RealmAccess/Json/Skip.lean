import RealmAccess.Json.Input
import RealmAccess.Json.Number
/-!
# Skipping a value

The value of a field that no record declares is read only to find where it ends. It must still
be well formed JSON, but its strings and numbers are only checked, not decoded, and brackets
nest without limit. The skipper keeps the open brackets as a stack and moves between three
states: before a value, before a key of an object, and after an element or an opening bracket.
-/

namespace RealmAccess.Json

/-- An open bracket of a skipped value. -/
inductive Bracket where
  | list
  | object
  deriving DecidableEq

/-- The character that closes a bracket. -/
def Bracket.closer : Bracket → Char
  | .list => ']'
  | .object => '}'

/-- The construct an early end of the text falls in. -/
def Bracket.within : Bracket → Within
  | .list => .list
  | .object => .object

/-- The grammar break of a missing comma or closer. -/
def Bracket.missingComma : Bracket → Fault
  | .list => .expectedListCommaOrEnd
  | .object => .expectedObjectCommaOrEnd

/-- Where the skipper stands. -/
inductive SkipState where
  /-- Before a value; the stack holds every open bracket. -/
  | value
  /-- Before a key of the innermost open bracket, an object. -/
  | key
  /-- After the opening bracket `inner` (no comma allowed) or after one of its elements (comma
  allowed); the stack holds the brackets around `inner`. -/
  | after (inner : Bracket) (commaAllowed : Bool)

/-- Whether the skipper is between elements, which it may leave without reading. -/
def SkipState.rank : SkipState → Nat
  | .after .. => 1
  | _ => 0

/-- Skips the rest of a value from the given state. -/
def skipFrom (stack : List Bracket) (state : SkipState) (s : List Char) :
    Except Error (Rest s) :=
  match state with
  | .value =>
      match blankTail s with
      | ⟨[], _⟩ => .error (.eof .value)
      | ⟨c :: rest, h⟩ =>
          have hs : rest.length < s.length := rest_lt_of_cons h
          -- a scalar ends here; the enclosing bracket, if any, takes over after it
          let scalarDone (r : Tail rest) : Except Error (Rest s) :=
            match stack with
            | [] => .ok (r.strictWithin hs)
            | inner :: outer =>
                (skipFrom outer (.after inner true) r.1).map
                  fun q => q.within (Nat.le_trans r.2 (rest_le_of_cons h))
          if c = 'n' then (expectWord ['u', 'l', 'l'] rest) >>= scalarDone
          else if c = 't' then (expectWord ['r', 'u', 'e'] rest) >>= scalarDone
          else if c = 'f' then (expectWord ['a', 'l', 's', 'e'] rest) >>= scalarDone
          else if c = '-' then skipNegative rest >>= scalarDone
          else if c.isDigit then skipNumber c rest >>= scalarDone
          else if c = '"' then (skipString rest) >>= fun r => scalarDone ⟨r.1, Nat.le_of_lt r.2⟩
          else if c = '[' then
            (skipFrom stack (.after .list false) rest).map fun q => q.within (rest_le_of_cons h)
          else if c = '{' then
            (skipFrom stack (.after .object false) rest).map fun q => q.within (rest_le_of_cons h)
          else .error (.malformed .expectedValue)
  | .key =>
      match blankTail s with
      | ⟨[], _⟩ => .error (.eof .object)
      | ⟨c :: rest, h⟩ =>
          have hs : rest.length < s.length := rest_lt_of_cons h
          if c = '"' then
            match skipString rest with
            | .error e => .error e
            | .ok ⟨afterKey, hk⟩ =>
                match blankTail afterKey with
                | ⟨':' :: afterColon, hc⟩ =>
                    (skipFrom stack .value afterColon).map
                      fun q => q.within (Nat.le_trans (Nat.le_of_lt (rest_lt_of_cons hc))
                        (Nat.le_trans (Nat.le_of_lt hk) (Nat.le_of_lt hs)))
                | ⟨[], _⟩ => .error (.eof .object)
                | ⟨_ :: _, _⟩ => .error (.malformed .expectedColon)
          else .error (.malformed .keyMustBeAString)
  | .after inner commaAllowed =>
      match blankTail s with
      | ⟨[], _⟩ => .error (.eof inner.within)
      | ⟨c :: rest, h⟩ =>
          have hs : rest.length < s.length := rest_lt_of_cons h
          if c = ',' ∧ commaAllowed then
            match inner with
            | .list =>
                (skipFrom (.list :: stack) .value rest).map fun q => q.within (rest_le_of_cons h)
            | .object =>
                (skipFrom (.object :: stack) .key rest).map fun q => q.within (rest_le_of_cons h)
          else if c = inner.closer then
            match stack with
            | [] => .ok ⟨rest, hs⟩
            | outer :: more =>
                (skipFrom more (.after outer true) rest).map fun q => q.within (rest_le_of_cons h)
          else if commaAllowed then .error (.malformed inner.missingComma)
          else
            -- the first element follows the opening bracket without a comma
            match inner with
            | .list =>
                (skipFrom (.list :: stack) .value (c :: rest)).map fun q => q.within h
            | .object =>
                (skipFrom (.object :: stack) .key (c :: rest)).map fun q => q.within h
termination_by 2 * s.length + state.rank
decreasing_by
  all_goals first
    | (simp only [SkipState.rank]; have := r.2; omega)
    | (simp only [SkipState.rank]; have := hk; simp only [List.length_cons] at hc; omega)
    | (simp only [SkipState.rank, List.length_cons]; omega)

/-- Skips one value at the front of the text, blanks before it included. -/
def skipValue (s : List Char) : Except Error (Rest s) :=
  skipFrom [] .value s

end RealmAccess.Json
