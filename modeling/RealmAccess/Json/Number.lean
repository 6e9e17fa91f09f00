import RealmAccess.Json.Input
/-!
# Numbers

A JSON number is read as the reader classifies it: an integer of at most 64 bits without a
sign, a negative integer of at most 64 bits, or else a double. A double is computed from an
integer significand of at most 64 bits and a power of ten, by one multiplication or division
with the power, correctly rounded: digits past the 64 bits of the significand only raise the
exponent or are dropped after the point. A result that would be infinite is out of range;
an exponent too large for 32 bits is out of range unless the value is zero or the exponent is
negative, which gives zero.

A number whose value is not needed is only checked against the grammar.
-/

namespace RealmAccess.Json

/-- A number as the reader classifies it. -/
inductive Number where
  /-- An integer below `2 ^ 64` written without a minus sign. -/
  | unsigned (value : Nat)
  /-- A negative integer of at least `-2 ^ 63`. -/
  | signed (value : Int)
  /-- Any other number. -/
  | float (value : Float)

/-- The largest significand kept exactly, `2 ^ 64 - 1`. -/
def maxSignificand : Nat := 0xFFFFFFFFFFFFFFFF

/-- The largest exponent read exactly, `2 ^ 31 - 1`. -/
def maxExponent : Nat := 0x7FFFFFFF

/-- An exponent brought into the 32-bit range by saturation. -/
def saturate (e : Int) : Int :=
  max (-0x80000000) (min e 0x7FFFFFFF)

/-- The value of a decimal digit. -/
def digitValue (c : Char) : Nat :=
  c.toNat - '0'.toNat

/-- Appends decimal digits to a significand while it stays at most `maxSignificand`; also
returns how many digits were left over. -/
def absorbDigits (significand : Nat) : List Nat → Nat × Nat
  | [] => (significand, 0)
  | d :: ds =>
      if significand * 10 + d > maxSignificand then (significand, ds.length + 1)
      else absorbDigits (significand * 10 + d) ds

/-- The correctly rounded double nearest to `10 ^ k`. -/
def powerOfTen (k : Nat) : Float :=
  OfScientific.ofScientific 1 false k

/-- Scales a double by `10 ^ exponent`; `none` when the result is out of range. Powers beyond
`10 ^ 308` are applied by steps of `10 ^ 308` downward; upward they overflow unless the value is
zero. -/
def scaleByTen (f : Float) (exponent : Int) : Option Float :=
  if exponent.natAbs ≤ 308 then
    if exponent ≥ 0 then
      let g := f * powerOfTen exponent.natAbs
      if g.isInf then none else some g
    else some (f / powerOfTen exponent.natAbs)
  else if f == 0 then some f
  else if exponent ≥ 0 then none
  else scaleByTen (f / powerOfTen 308) (exponent + 308)
termination_by exponent.natAbs

/-- The double `± significand * 10 ^ exponent`. -/
def fromParts (positive : Bool) (significand : Nat) (exponent : Int) : Except Error Number :=
  match scaleByTen (Float.ofNat significand) exponent with
  | none => .error (.malformed .numberOutOfRange)
  | some f => .ok (.float (if positive then f else -f))

/-- The exponent part of a number, read after its `e`. -/
def exponentPart (positive : Bool) (significand : Nat) (start : Int) (s : List Char) :
    Except Error Number :=
  let (upward, afterSign) :=
    match s with
    | '+' :: rest => (true, rest)
    | '-' :: rest => (false, rest)
    | _ => (true, s)
  match afterSign with
  | [] => .error (.eof .value)
  | c :: rest =>
      if !c.isDigit then .error (.malformed .invalidNumber)
      else
        let digits := (c :: rest.takeWhile Char.isDigit).map digitValue
        match absorbExponent digits 0 with
        | some e =>
            fromParts positive significand (saturate (if upward then start + e else start - e))
        | none =>
            if significand ≠ 0 && upward then .error (.malformed .numberOutOfRange)
            else .ok (.float (if positive then 0 else -0))
where
  /-- The exponent's digits as a number, or `none` once it passes `maxExponent`. -/
  absorbExponent : List Nat → Nat → Option Nat
    | [], e => some e
    | d :: ds, e => if e * 10 + d > maxExponent then none else absorbExponent ds (e * 10 + d)

/-- The fraction and exponent of a number, read after the point; `start` is the power of ten
already owed by the integer part. -/
def fractionPart (positive : Bool) (significand : Nat) (start : Int) (s : List Char) :
    Except Error Number :=
  let digits := (s.takeWhile Char.isDigit).map digitValue
  let after := s.dropWhile Char.isDigit
  if digits.isEmpty then
    if s.isEmpty then .error (.eof .value) else .error (.malformed .invalidNumber)
  else
    let (kept, left) := absorbDigits significand digits
    let exponent := start - ((digits.length - left : Nat) : Int)
    match after with
    | c :: rest => if c = 'e' ∨ c = 'E' then exponentPart positive kept exponent rest
                   else fromParts positive kept exponent
    | [] => fromParts positive kept exponent

/-- What follows the integer digits of a number: a fraction, an exponent, or nothing. -/
def afterInteger (positive : Bool) (significand : Nat) (extra : Nat) (s : List Char) :
    Except Error Number :=
  match s with
  | '.' :: rest => fractionPart positive significand extra rest
  | c :: rest =>
      if c = 'e' ∨ c = 'E' then exponentPart positive significand extra rest
      else if extra > 0 then fromParts positive significand extra
      else .ok (integer positive significand)
  | [] => if extra > 0 then fromParts positive significand extra
          else .ok (integer positive significand)
where
  /-- An integer that fits 64 bits; a negative one of more than 63 bits, and minus zero, are
  doubles. -/
  integer (positive : Bool) (significand : Nat) : Number :=
    if positive then .unsigned significand
    else if significand = 0 ∨ significand > 0x8000000000000000 then .float (-(Float.ofNat significand))
    else .signed (-(significand : Int))

/-- The value of a number, read after its minus sign if `positive` is false. A leading zero
stands alone. -/
def readNumber (positive : Bool) : List Char → Except Error Number
  | [] => .error (.eof .value)
  | c :: rest =>
      if c = '0' then
        match rest with
        | d :: _ => if d.isDigit then .error (.malformed .invalidNumber)
                    else afterInteger positive 0 0 rest
        | [] => afterInteger positive 0 0 rest
      else if c.isDigit then
        let digits := (rest.takeWhile Char.isDigit).map digitValue
        let (kept, left) := absorbDigits (digitValue c) digits
        afterInteger positive kept left (rest.dropWhile Char.isDigit)
      else .error (.malformed .invalidNumber)

/-! ### Checking a number whose value is not needed -/

theorem length_dropWhile_le (p : Char → Bool) (s : List Char) :
    (s.dropWhile p).length ≤ s.length := by
  induction s with
  | nil => simp
  | cons c rest ih =>
      rw [List.dropWhile_cons]
      split
      · simp only [List.length_cons]; omega
      · exact Nat.le_refl _

/-- The text after its leading decimal digits. -/
def dropDigits (s : List Char) : Tail s :=
  ⟨s.dropWhile Char.isDigit, length_dropWhile_le _ s⟩

/-- Checks an exponent, read after its `e`: an optional sign and at least one digit. -/
def skipExponent (s : List Char) : Except Error (Tail s) :=
  let afterSign : Tail s :=
    match s with
    | c :: rest => if c = '+' ∨ c = '-' then ⟨rest, length_le_cons c rest⟩ else ⟨c :: rest, Nat.le_refl _⟩
    | [] => ⟨[], Nat.le_refl _⟩
  match afterSign with
  | ⟨c :: rest, h⟩ =>
      if c.isDigit then .ok ((dropDigits rest).within (rest_le_of_cons h))
      else .error (.malformed .invalidNumber)
  | ⟨[], _⟩ => .error (.malformed .invalidNumber)

/-- Checks what may follow the integer digits of a number: a fraction with at least one digit,
an exponent, or nothing. -/
def skipAfterInteger (s : List Char) : Except Error (Tail s) :=
  match s with
  | '.' :: rest =>
      match rest with
      | d :: more =>
          if d.isDigit then
            match dropDigits more with
            | ⟨c :: after, h⟩ =>
                if c = 'e' ∨ c = 'E' then
                  (skipExponent after).map fun r => r.within (by simp at h ⊢; omega)
                else .ok ⟨c :: after, by simp only [List.length_cons] at h ⊢; omega⟩
            | ⟨[], _⟩ => .ok ⟨[], by simp⟩
          else .error (.malformed .invalidNumber)
      | [] => .error (.malformed .invalidNumber)
  | c :: rest =>
      if c = 'e' ∨ c = 'E' then (skipExponent rest).map fun r => r.within (length_le_cons c rest)
      else .ok ⟨c :: rest, Nat.le_refl _⟩
  | [] => .ok ⟨[], Nat.le_refl _⟩

/-- Checks a number whose first character, after any minus sign, is `first`. -/
def skipNumber (first : Char) (rest : List Char) : Except Error (Tail rest) :=
  if first = '0' then
    match rest with
    | d :: more =>
        if d.isDigit then .error (.malformed .invalidNumber) else skipAfterInteger (d :: more)
    | [] => .ok ⟨[], Nat.le_refl _⟩
  else if first.isDigit then
    (skipAfterInteger (dropDigits rest).1).map fun r => r.within (dropDigits rest).2
  else .error (.malformed .invalidNumber)

/-- Checks a number after its minus sign. -/
def skipNegative : (rest : List Char) → Except Error (Tail rest)
  | [] => .error (.malformed .invalidNumber)
  | d :: more => (skipNumber d more).map fun r => r.within (length_le_cons d more)

end RealmAccess.Json
