import RealmAccess.Json.Error
/-!
# Reading JSON text

The reader's smallest steps: what is left of a text after a step, blanks, fixed words, and
string literals.
-/

/-! ## The text still to be read

The reader works on the characters of a JSON text that are still to be read. A step that reads
something returns what is left together with the proof that it is shorter (`Rest`) or no longer
(`Tail`), so every loop of the reader ends by the length of the text. This module also holds the
two smallest steps: skipping blanks and reading a fixed word.
-/

namespace RealmAccess.Json

/-- What is left of the text `s` after at least one character was read. -/
abbrev Rest (s : List Char) := { r : List Char // r.length < s.length }

/-- What is left of the text `s` after some characters, maybe none, were read. -/
abbrev Tail (s : List Char) := { r : List Char // r.length ≤ s.length }

/-- A rest of a text no longer than `s` is a rest of `s`. -/
def Rest.within {s t : List Char} (h : t.length ≤ s.length) (r : Rest t) : Rest s :=
  ⟨r.1, Nat.lt_of_lt_of_le r.2 h⟩

/-- A tail of a text no longer than `s` is a tail of `s`. -/
def Tail.within {s t : List Char} (h : t.length ≤ s.length) (r : Tail t) : Tail s :=
  ⟨r.1, Nat.le_trans r.2 h⟩

/-- A tail of a text shorter than `s` is a rest of `s`. -/
def Tail.strictWithin {s t : List Char} (h : t.length < s.length) (r : Tail t) : Rest s :=
  ⟨r.1, Nat.lt_of_le_of_lt r.2 h⟩

/-- What follows the first character of a tail of `s` is a rest of `s`. -/
theorem rest_lt_of_cons {s rest : List Char} {c : Char} (h : (c :: rest).length ≤ s.length) :
    rest.length < s.length := by
  simp only [List.length_cons] at h
  omega

/-- What follows the first character of a tail of `s` is a tail of `s`. -/
theorem rest_le_of_cons {s rest : List Char} {c : Char} (h : (c :: rest).length ≤ s.length) :
    rest.length ≤ s.length :=
  Nat.le_of_lt (rest_lt_of_cons h)

theorem length_lt_cons (c : Char) (rest : List Char) : rest.length < (c :: rest).length :=
  Nat.lt_succ_self _

theorem length_le_cons (c : Char) (rest : List Char) : rest.length ≤ (c :: rest).length :=
  Nat.le_succ _

/-- The blanks between JSON tokens: space, line feed, tab and carriage return. -/
def isBlank (c : Char) : Bool :=
  c = ' ' || c = '\n' || c = '\t' || c = '\r'

/-- The text after its leading blanks. -/
def skipBlank (s : List Char) : List Char :=
  s.dropWhile isBlank

theorem length_skipBlank_le (s : List Char) : (skipBlank s).length ≤ s.length := by
  induction s with
  | nil => simp [skipBlank]
  | cons c rest ih =>
      simp only [skipBlank, List.dropWhile_cons] at ih ⊢
      split
      · simp only [List.length_cons]; omega
      · exact Nat.le_refl _

/-- The text after its leading blanks, as a tail. -/
def blankTail (s : List Char) : Tail s :=
  ⟨skipBlank s, length_skipBlank_le s⟩

/-- Reads the letters of `word` off the front of the text; the text ends too early or holds
another letter. -/
def expectWord : (word : List Char) → (s : List Char) → Except Error (Tail s)
  | [], s => .ok ⟨s, Nat.le_refl _⟩
  | _ :: _, [] => .error (.eof .value)
  | w :: ws, c :: rest =>
      if c = w then
        (expectWord ws rest).map fun r => ⟨r.1, Nat.le_succ_of_le r.2⟩
      else .error (.malformed .expectedIdent)

/-! ## String literals

A JSON string is read from just after its opening quote to just after its closing quote.
Control characters below U+0020 may not stand in it; a backslash starts one of the escapes
`\" \\ \/ \b \f \n \r \t` or `\uXXXX`. A `\u` escape names a UTF-16 unit: a high surrogate
must be followed at once by a `\u` escape of a low surrogate, and a low surrogate may not stand
alone.

A string whose value is not needed is only checked: its escapes must be well formed, but the
surrogates of its `\u` escapes need not pair.
-/

/-- The value of a hexadecimal digit. -/
def hexValue (c : Char) : Option Nat :=
  if '0' ≤ c ∧ c ≤ '9' then some (c.toNat - '0'.toNat)
  else if 'a' ≤ c ∧ c ≤ 'f' then some (c.toNat - 'a'.toNat + 10)
  else if 'A' ≤ c ∧ c ≤ 'F' then some (c.toNat - 'A'.toNat + 10)
  else none

/-- The number named by the four hexadecimal digits of a `\u` escape. Fewer than four bytes of
text left is an early end of the string; four bytes that are not all hexadecimal digits are an
invalid escape. -/
def hexQuad : (s : List Char) → Except Error (Nat × Rest s)
  | a :: b :: c :: d :: rest =>
      match hexValue a, hexValue b, hexValue c, hexValue d with
      | some x, some y, some z, some w =>
          .ok (((x * 16 + y) * 16 + z) * 16 + w, ⟨rest, by simp; omega⟩)
      | _, _, _, _ => .error (.malformed .invalidEscape)
  | short =>
      if 4 ≤ (short.map Char.utf8Size).foldr (· + ·) 0 then .error (.malformed .invalidEscape)
      else .error (.eof .string)

/-- Whether a UTF-16 unit is a high (leading) surrogate. -/
def isHighSurrogate (n : Nat) : Bool :=
  0xD800 ≤ n && n ≤ 0xDBFF

/-- Whether a UTF-16 unit is a low (trailing) surrogate. -/
def isLowSurrogate (n : Nat) : Bool :=
  0xDC00 ≤ n && n ≤ 0xDFFF

/-- The character of a `\u` escape, read after the `u`, with the low surrogate that must follow
a high one. -/
def unicodeEscape (s : List Char) : Except Error (Char × Rest s) := do
  let (unit, ⟨rest, h⟩) ← hexQuad s
  if isLowSurrogate unit then
    throw (.malformed .loneLeadingSurrogate)
  else if !isHighSurrogate unit then
    return (Char.ofNat unit, ⟨rest, h⟩)
  else
    match rest, h with
    | '\\' :: 'u' :: after, h => do
        let (low, ⟨final, h'⟩) ← hexQuad after
        if isLowSurrogate low then
          let code := 0x10000 + (unit - 0xD800) * 0x400 + (low - 0xDC00)
          return (Char.ofNat code, ⟨final, by simp at h h' ⊢; omega⟩)
        else
          throw (.malformed .loneLeadingSurrogate)
    | [], _ => throw (.eof .string)
    | ['\\'], _ => throw (.eof .string)
    | _, _ => throw (.malformed .unexpectedEndOfHexEscape)

/-- The character of an escape, read after the backslash. -/
def escape : (s : List Char) → Except Error (Char × Rest s)
  | [] => .error (.eof .string)
  | c :: rest =>
      let simple (x : Char) : Except Error (Char × Rest (c :: rest)) := .ok (x, ⟨rest, length_lt_cons c rest⟩)
      if c = '"' then simple '"'
      else if c = '\\' then simple '\\'
      else if c = '/' then simple '/'
      else if c = 'b' then simple '\x08'
      else if c = 'f' then simple '\x0c'
      else if c = 'n' then simple '\n'
      else if c = 'r' then simple '\r'
      else if c = 't' then simple '\t'
      else if c = 'u' then
        (unicodeEscape rest).map fun (x, r) => (x, r.within (length_le_cons c rest))
      else .error (.malformed .invalidEscape)

/-- Whether a character may not stand unescaped in a string. -/
def isControl (c : Char) : Bool :=
  c.toNat < 0x20

/-- The characters of a string up to its closing quote, after those already read (`acc`, last
first). -/
def stringBody (acc : List Char) (s : List Char) : Except Error (String × Rest s) :=
  match s with
  | [] => .error (.eof .string)
  | c :: rest =>
      if c = '"' then .ok (String.ofList acc.reverse, ⟨rest, length_lt_cons c rest⟩)
      else if c = '\\' then
        match escape rest with
        | .error e => .error e
        | .ok (x, ⟨after, h⟩) =>
            (stringBody (x :: acc) after).map fun (str, r) =>
              (str, r.within (by simp; omega))
      else if isControl c then .error (.malformed .controlCharacter)
      else (stringBody (c :: acc) rest).map fun (str, r) => (str, r.within (length_le_cons c rest))
termination_by s.length

/-- The value of a string, read after its opening quote. -/
def readString (s : List Char) : Except Error (String × Rest s) :=
  stringBody [] s

/-- Checks an escape whose character is not needed, read after the backslash. -/
def skipEscape : (s : List Char) → Except Error (Rest s)
  | [] => .error (.eof .string)
  | c :: rest =>
      if c = '"' ∨ c = '\\' ∨ c = '/' ∨ c = 'b' ∨ c = 'f' ∨ c = 'n' ∨ c = 'r' ∨ c = 't' then
        .ok ⟨rest, length_lt_cons c rest⟩
      else if c = 'u' then
        (hexQuad rest).map fun (_, r) => r.within (length_le_cons c rest)
      else .error (.malformed .invalidEscape)

/-- Checks a string whose value is not needed, read after its opening quote. -/
def skipString (s : List Char) : Except Error (Rest s) :=
  match s with
  | [] => .error (.eof .string)
  | c :: rest =>
      if c = '"' then .ok ⟨rest, length_lt_cons c rest⟩
      else if c = '\\' then
        match skipEscape rest with
        | .error e => .error e
        | .ok ⟨after, h⟩ => (skipString after).map fun r => r.within (by simp; omega)
      else if isControl c then .error (.malformed .controlCharacter)
      else (skipString rest).map fun r => r.within (length_le_cons c rest)
termination_by s.length

end RealmAccess.Json
