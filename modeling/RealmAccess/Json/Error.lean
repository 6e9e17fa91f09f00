import RealmAccess.Text
import RealmAccess.Decimal
/-!
# Errors of the JSON reader

A read fails for one of three reasons: the text ends too early, the text breaks the grammar,
or the text is well formed but holds the wrong kind of value for the type being read. Each
cause is a constructor; `Error.message` gives its wording and `Error.category` its class.
-/

namespace RealmAccess.Json

/-- The kind of value a reader met where it expected another. -/
inductive Unexpected where
  | null
  | bool (value : Bool)
  | unsigned (value : Nat)
  | signed (value : Int)
  | float (value : Float)
  | string (value : String)
  | seq
  | map

/-- The construct that was open when the text ended. -/
inductive Within where
  | list
  | object
  | string
  | value
  deriving DecidableEq, Repr

/-- A break of the JSON grammar. -/
inductive Fault where
  | expectedColon
  | expectedListCommaOrEnd
  | expectedObjectCommaOrEnd
  | expectedIdent
  | expectedValue
  | invalidEscape
  | invalidNumber
  | numberOutOfRange
  | controlCharacter
  | keyMustBeAString
  | loneLeadingSurrogate
  | trailingComma
  | trailingCharacters
  | unexpectedEndOfHexEscape
  deriving DecidableEq, Repr

/-- Why reading a JSON text failed. -/
inductive Error where
  /-- The text ended inside a construct. -/
  | eof (within : Within)
  /-- The text breaks the grammar. -/
  | malformed (fault : Fault)
  /-- A value of another kind stands where `expected` was wanted. -/
  | invalidType (found : Unexpected) (expected : String)
  /-- A value of the right kind but out of the range of `expected`. -/
  | invalidValue (found : Unexpected) (expected : String)
  /-- A sequence had `count` elements where `expected` was wanted. -/
  | invalidLength (count : Nat) (expected : String)
  /-- A record lacks a field that has no default. -/
  | missingField (name : String)
  /-- A record names a field twice. -/
  | duplicateField (name : String)

/-- The three classes of read errors. -/
inductive Category where
  | grammar
  | data
  | eof
  deriving DecidableEq, Repr

/-- The class of an error. -/
def Error.category : Error → Category
  | .eof _ => .eof
  | .malformed _ => .grammar
  | .invalidType .. | .invalidValue .. | .invalidLength .. | .missingField _ | .duplicateField _ =>
      .data

/-- The name of a category as it is reported. -/
def Category.name : Category → String
  | .grammar => "syntax"
  | .data => "data"
  | .eof => "eof"

/-- Doubles in messages: positional up to sixteen digits before the point and down to four
zeros after it, an integral value ends in `.0`, and the exponent is marked `e`, with `+` in
front of it when it is not negative. -/
def floatLayout : Decimal.Layout :=
  { maxPoint := 16, maxLeadingZeros := 4, exponentMark := "e", exponentPlus := "+",
    integralSuffix := ".0" }

/-- The text of a finite double: its shortest decimal in `floatLayout`, zero as `0.0`. -/
def floatText (x : Float) : String :=
  let bits := x.toBits
  let negative := bits >>> 63 == 1
  if bits &&& 0x7FFFFFFFFFFFFFFF == 0 then
    if negative then "-0.0" else "0.0"
  else
    (Decimal.shortest (bits &&& 0x7FFFFFFFFFFFFFFF)).write floatLayout negative

/-- How a met value is named in a message. -/
def Unexpected.describe : Unexpected → String
  | .null => "null"
  | .bool b => "boolean `" ++ toString b ++ "`"
  | .unsigned n => "integer `" ++ toString n ++ "`"
  | .signed i => "integer `" ++ toString i ++ "`"
  | .float x => "floating point `" ++ floatText x ++ "`"
  | .string s => "string " ++ Text.quote s
  | .seq => "sequence"
  | .map => "map"

/-- The wording of a grammar break. -/
def Fault.message : Fault → String
  | .expectedColon => "expected `:`"
  | .expectedListCommaOrEnd => "expected `,` or `]`"
  | .expectedObjectCommaOrEnd => "expected `,` or `\x7d`"
  | .expectedIdent => "expected ident"
  | .expectedValue => "expected value"
  | .invalidEscape => "invalid escape"
  | .invalidNumber => "invalid number"
  | .numberOutOfRange => "number out of range"
  | .controlCharacter => "control character (\\u0000-\\u001F) found while parsing a string"
  | .keyMustBeAString => "key must be a string"
  | .loneLeadingSurrogate => "lone leading surrogate in hex escape"
  | .trailingComma => "trailing comma"
  | .trailingCharacters => "trailing characters"
  | .unexpectedEndOfHexEscape => "unexpected end of hex escape"

/-- The name of an open construct in an end-of-text message. -/
def Within.name : Within → String
  | .list => "a list"
  | .object => "an object"
  | .string => "a string"
  | .value => "a value"

/-- The wording of an error. -/
def Error.message : Error → String
  | .eof within => "EOF while parsing " ++ within.name
  | .malformed fault => fault.message
  | .invalidType found expected =>
      "invalid type: " ++ found.describe ++ ", expected " ++ expected
  | .invalidValue found expected =>
      "invalid value: " ++ found.describe ++ ", expected " ++ expected
  | .invalidLength count expected =>
      "invalid length " ++ toString count ++ ", expected " ++ expected
  | .missingField name => "missing field `" ++ name ++ "`"
  | .duplicateField name => "duplicate field `" ++ name ++ "`"

end RealmAccess.Json
