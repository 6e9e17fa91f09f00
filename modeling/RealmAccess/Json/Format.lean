import RealmAccess.Json.Decoder
/-!
# JSON documents and formats

Results are written as JSON documents, and configurations, registries and expansions are read
from JSON text through a `Format`: the JSON library, taken as a parameter, with the one the
program runs on, `defaultFormat`.
-/

/-! ## JSON values and their text

Results are written as JSON. A `Value` is a JSON value whose numbers are natural numbers, the
only numbers results hold; `Value.render` writes it compactly, object keys in the order given.
In strings the quote, the backslash and the control characters are escaped, control
characters without a short escape as `\u00XX` with lowercase digits; all else stands as it is.
-/

namespace RealmAccess.Json

/-- A JSON value with natural-number numbers. -/
inductive Value where
  | null
  | bool (value : Bool)
  | number (value : Nat)
  | string (value : String)
  | array (items : List Value)
  | object (entries : List (String × Value))
  deriving Repr, Inhabited

/-- A string value. -/
def Value.str (s : String) : Value := .string s

/-- A list of strings. -/
def Value.strings (items : List String) : Value := .array (items.map .string)

/-- A list of numbers. -/
def Value.numbers (items : List Nat) : Value := .array (items.map .number)

/-- How one character is written inside a JSON string. -/
def escapeJsonChar (c : Char) : List Char :=
  if c = '"' then ['\\', '"']
  else if c = '\\' then ['\\', '\\']
  else if c = '\n' then ['\\', 'n']
  else if c = '\r' then ['\\', 'r']
  else if c = '\t' then ['\\', 't']
  else if c = '\x08' then ['\\', 'b']
  else if c = '\x0c' then ['\\', 'f']
  else if c.toNat < 0x20 then
    let digits := Nat.toDigits 16 c.toNat
    ['\\', 'u'] ++ List.replicate (4 - digits.length) '0' ++ digits
  else [c]

/-- A string written as a JSON string literal. -/
def quoteJson (s : String) : String :=
  String.ofList ('"' :: s.toList.flatMap escapeJsonChar ++ ['"'])

mutual

/-- The compact JSON text of a value. -/
def Value.render : Value → String
  | .null => "null"
  | .bool b => if b then "true" else "false"
  | .number n => toString n
  | .string s => quoteJson s
  | .array items => "[" ++ renderItems items ++ "]"
  | .object entries => "\x7b" ++ renderEntries entries ++ "\x7d"

/-- The elements of an array, separated by commas. -/
def renderItems : List Value → String
  | [] => ""
  | [v] => v.render
  | v :: more => v.render ++ "," ++ renderItems more

/-- The entries of an object, separated by commas. -/
def renderEntries : List (String × Value) → String
  | [] => ""
  | [(key, v)] => quoteJson key ++ ":" ++ v.render
  | (key, v) :: more => quoteJson key ++ ":" ++ v.render ++ "," ++ renderEntries more

end

/-! ## JSON formats

What the encodings of configurations, registries and expansions ask of a JSON library. A
`Format` gives readers of values: of strings, booleans and `u32`s, of lists and optional values
of what another reader reads, and of records described by their fields; it reads a whole text
with a reader (`parse`) and writes a document as text (`render`). Each record is declared once,
over any format: its fields, the key of each, and which of them a text may leave out.

`defaultFormat` is the library the program runs on: the decoders of `Json.Decoder`, and
`Json.Value.render` as the writer.
-/

/-- What the encodings ask of a JSON library. -/
structure Format where
  /-- Readers of values of type `α`. -/
  Reader : Type → Type
  map {α β : Type} : (α → β) → Reader α → Reader β
  string : Reader String
  bool : Reader Bool
  u32 : Reader Nat
  list {α : Type} : Reader α → Reader (List α)
  option {α : Type} : Reader α → Reader (Option α)
  /-- A record named `what` in messages, read field by field over the defaults of `start`. -/
  record {α : Type} (what : String) : List (Field Reader α) → (start : α) → Reader α
  /-- Reads a whole text as one value. -/
  parse {α : Type} : Reader α → String → Except Error α
  /-- The text of a document. -/
  render : Value → String

namespace Format

variable (format : Format) {α β : Type}

/-- A field that every record must give, read by `d` and stored by `store`. -/
def required (name : String) (d : format.Reader β) (store : β → α → α) :
    Field format.Reader α :=
  { name := name, optional := false, read := format.map store d }

/-- A field that a record may leave out, keeping the default. -/
def withDefault (name : String) (d : format.Reader β) (store : β → α → α) :
    Field format.Reader α :=
  { name := name, optional := true, read := format.map store d }

/-- A list of strings. -/
def strings : format.Reader (List String) :=
  format.list format.string

end Format

/-- The JSON library the program runs on. -/
def defaultFormat : Format where
  Reader := Decoder
  map := Decoder.map
  string := Decoder.string
  bool := Decoder.bool
  u32 := Decoder.u32
  list := Decoder.list
  option := Decoder.option
  record := Decoder.record
  parse := Decoder.parse
  render := Value.render

end RealmAccess.Json
