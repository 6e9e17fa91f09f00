import Mathlib
import RealmAccess.Json.Format
/-!
# Reading back written JSON

A decoder reads back the text that `Value.render` writes. `Decoder.Reads d v a` says that `d`
reads the written text of `v` as `a` and leaves exactly the text after it, whenever that text
goes on as written text does: with a comma, a closing bracket or brace, or nothing.

String literals come back character by character: every escape the writer makes is one the
reader undoes, the `\u00XX` escapes of control characters included. Numbers below `2 ^ 32` come
back as `u32`s. Arrays and objects come back element by element: an object is read as a record
when each key names a field, no key is repeated, and every field without a default is given
(`Field.Stores`).

A read's result carries the proof that the text left is shorter; `forgetBound` drops it, so
reads compare as plain values.
-/

namespace RealmAccess.Json

variable {α β : Type}

/-! ### Reads without their bounds -/

/-- A read's value and the text left, without the proof that the text got shorter. -/
def forgetBound {P : List Char → Prop} (read : Except Error (α × {r : List Char // P r})) :
    Except Error (α × List Char) :=
  read.map fun p => (p.1, p.2.1)

/-- The entries read from an object, the keys met, and the text left, without its bound. -/
def forgetEntriesBound {P : List Char → Prop}
    (read : Except Error (α × List String × {r : List Char // P r})) :
    Except Error (α × List String × List Char) :=
  read.map fun p => (p.1, p.2.1, p.2.2.1)

theorem forgetBound_map_bound {P Q : List Char → Prop}
    {read : Except Error (α × {r : List Char // P r})}
    {g : α × {r : List Char // P r} → α × {r : List Char // Q r}}
    (keeps : ∀ p, (g p).1 = p.1 ∧ (g p).2.1 = p.2.1) :
    forgetBound (read.map g) = forgetBound read := by
  cases read with
  | error e => rfl
  | ok p => simp [forgetBound, Except.map, keeps]

theorem forgetEntriesBound_map_bound {P Q : List Char → Prop}
    {read : Except Error (α × List String × {r : List Char // P r})}
    {g : α × List String × {r : List Char // P r} → α × List String × {r : List Char // Q r}}
    (keeps : ∀ p, (g p).1 = p.1 ∧ (g p).2.1 = p.2.1 ∧ (g p).2.2.1 = p.2.2.1) :
    forgetEntriesBound (read.map g) = forgetEntriesBound read := by
  cases read with
  | error e => rfl
  | ok p => simp [forgetEntriesBound, Except.map, keeps]

theorem eq_ok_of_forgetBound {P : List Char → Prop} {read : Except Error (α × {r : List Char // P r})}
    {a : α} {rest : List Char} (read_ok : forgetBound read = .ok (a, rest)) :
    ∃ bound, read = .ok (a, ⟨rest, bound⟩) := by
  cases read with
  | error e => cases read_ok
  | ok p =>
      obtain ⟨a', rest', bound⟩ := p
      simp only [forgetBound, Except.map, Except.ok.injEq, Prod.mk.injEq] at read_ok
      obtain ⟨rfl, rfl⟩ := read_ok
      exact ⟨bound, rfl⟩

theorem eq_ok_of_forgetEntriesBound {P : List Char → Prop}
    {read : Except Error (α × List String × {r : List Char // P r})} {a : α} {keys : List String}
    {rest : List Char} (read_ok : forgetEntriesBound read = .ok (a, keys, rest)) :
    ∃ bound, read = .ok (a, keys, ⟨rest, bound⟩) := by
  cases read with
  | error e => cases read_ok
  | ok p =>
      obtain ⟨a', keys', rest', bound⟩ := p
      simp only [forgetEntriesBound, Except.map, Except.ok.injEq, Prod.mk.injEq] at read_ok
      obtain ⟨rfl, rfl, rfl⟩ := read_ok
      exact ⟨bound, rfl⟩

/-- A character that is not blank is where the reader starts. -/
theorem blankTail_cons {c : Char} {t : List Char} (solid : isBlank c = false) :
    blankTail (c :: t) = ⟨c :: t, Nat.le_refl _⟩ := by
  apply Subtype.ext
  simp [blankTail, skipBlank, solid]

/-! ### String literals -/

theorem stringBody_quote (acc t : List Char) :
    forgetBound (stringBody acc ('"' :: t)) = .ok (String.ofList acc.reverse, t) := by
  rw [stringBody]
  simp [forgetBound, Except.map]

theorem stringBody_backslash {acc s t : List Char} {x : Char}
    (escaped : forgetBound (escape s) = .ok (x, t)) :
    forgetBound (stringBody acc ('\\' :: s)) = forgetBound (stringBody (x :: acc) t) := by
  obtain ⟨bound, escapedOk⟩ := eq_ok_of_forgetBound escaped
  rw [stringBody]
  simp only [show ('\\' = '"') = False by decide, if_false, if_true, escapedOk]
  exact forgetBound_map_bound fun _ => ⟨rfl, rfl⟩

theorem stringBody_plain {acc t : List Char} {c : Char} (notQuote : c ≠ '"')
    (notBackslash : c ≠ '\\') (printable : isControl c = false) :
    forgetBound (stringBody acc (c :: t)) = forgetBound (stringBody (c :: acc) t) := by
  rw [stringBody]
  simp only [notQuote, notBackslash, printable, if_false, Bool.false_eq_true]
  exact forgetBound_map_bound fun _ => ⟨rfl, rfl⟩

theorem hexValue_digitChar {n : Nat} (small : n < 16) : hexValue (Nat.digitChar n) = some n := by
  have table : ∀ m < 16, hexValue (Nat.digitChar m) = some m := by decide
  exact table n small

/-- The four hexadecimal digits written for a control character. -/
theorem padded_hex {n : Nat} (small : n < 32) :
    List.replicate (4 - (Nat.toDigits 16 n).length) '0' ++ Nat.toDigits 16 n =
      ['0', '0', Nat.digitChar (n / 16), Nat.digitChar (n % 16)] := by
  by_cases low : n < 16
  · rw [Nat.toDigits_of_lt_base low, Nat.div_eq_of_lt low, Nat.mod_eq_of_lt low]
    rfl
  · have high : n / 16 = 1 := by omega
    rw [Nat.toDigits_of_base_le (by decide) (by omega), high, Nat.toDigits_of_lt_base (by decide)]
    rfl

/-- The `\u00XX` escape of a control character is read back as that character. -/
theorem escape_control {c : Char} {t : List Char} (control : c.toNat < 0x20) :
    forgetBound (escape ('u' :: (List.replicate (4 - (Nat.toDigits 16 c.toNat).length) '0' ++
      Nat.toDigits 16 c.toNat) ++ t)) = .ok (c, t) := by
  rw [padded_hex control]
  have zero : hexValue '0' = some 0 := rfl
  have high := hexValue_digitChar (show c.toNat / 16 < 16 by omega)
  have low := hexValue_digitChar (show c.toNat % 16 < 16 by omega)
  have notLow : isLowSurrogate c.toNat = false := by simp [isLowSurrogate]; omega
  have notHigh : isHighSurrogate c.toNat = false := by simp [isHighSurrogate]; omega
  have value : c.toNat / 16 * 16 + c.toNat % 16 = c.toNat := Nat.div_add_mod' c.toNat 16
  simp [escape, unicodeEscape, hexQuad, zero, high, low, value, notLow, notHigh, forgetBound,
    bind, Except.bind, pure, Except.pure, Except.map, Rest.within]

/-- Reading back the escaped form of one character reads that character. -/
theorem stringBody_escapeJsonChar (acc t : List Char) (c : Char) :
    forgetBound (stringBody acc (escapeJsonChar c ++ t)) =
      forgetBound (stringBody (c :: acc) t) := by
  by_cases quote : c = '"'
  · subst quote
    exact stringBody_backslash rfl
  by_cases backslash : c = '\\'
  · subst backslash
    exact stringBody_backslash rfl
  by_cases newline : c = '\n'
  · subst newline
    exact stringBody_backslash rfl
  by_cases carriage : c = '\r'
  · subst carriage
    exact stringBody_backslash rfl
  by_cases tab : c = '\t'
  · subst tab
    exact stringBody_backslash rfl
  by_cases backspace : c = '\x08'
  · subst backspace
    exact stringBody_backslash rfl
  by_cases formfeed : c = '\x0c'
  · subst formfeed
    exact stringBody_backslash rfl
  unfold escapeJsonChar
  rw [if_neg quote, if_neg backslash, if_neg newline, if_neg carriage, if_neg tab,
    if_neg backspace, if_neg formfeed]
  by_cases control : c.toNat < 0x20
  · rw [if_pos control]
    exact stringBody_backslash (escape_control control)
  · rw [if_neg control]
    exact stringBody_plain quote backslash (by simpa [isControl] using control)

theorem stringBody_escaped (acc cs rest : List Char) :
    forgetBound (stringBody acc (cs.flatMap escapeJsonChar ++ '"' :: rest)) =
      .ok (String.ofList (acc.reverse ++ cs), rest) := by
  induction cs generalizing acc with
  | nil =>
      rw [List.flatMap_nil, List.nil_append, List.append_nil]
      exact stringBody_quote acc rest
  | cons c more ih =>
      rw [List.flatMap_cons, List.append_assoc, stringBody_escapeJsonChar, ih]
      simp

theorem quoteJson_toList (s : String) :
    (quoteJson s).toList = '"' :: (s.toList.flatMap escapeJsonChar ++ ['"']) := by
  simp [quoteJson]

theorem quoteJson_toList_append (s : String) (t : List Char) :
    (quoteJson s).toList ++ t = '"' :: (s.toList.flatMap escapeJsonChar ++ '"' :: t) := by
  simp [quoteJson_toList]

/-- A string literal is read back as the string written. -/
theorem readString_quoted (s : String) (rest : List Char) :
    forgetBound (readString (s.toList.flatMap escapeJsonChar ++ '"' :: rest)) = .ok (s, rest) := by
  unfold readString
  rw [stringBody_escaped]
  simp

/-! ### Numbers -/

theorem ne_of_isDigit {c x : Char} (digit : c.isDigit = true) (other : x.isDigit = false) :
    c ≠ x := by
  rintro rfl
  rw [digit] at other
  cases other

theorem isBlank_of_isDigit {c : Char} (digit : c.isDigit = true) : isBlank c = false := by
  simp only [isBlank, Bool.or_eq_false_iff, decide_eq_false_iff_not]
  exact ⟨⟨⟨ne_of_isDigit digit (by decide), ne_of_isDigit digit (by decide)⟩,
    ne_of_isDigit digit (by decide)⟩, ne_of_isDigit digit (by decide)⟩

/-- A number has at least one decimal digit, and all of them are digits. -/
theorem exists_decimal_cons (n : Nat) :
    ∃ d ds, Nat.toDigits 10 n = d :: ds ∧ ∀ c ∈ d :: ds, c.isDigit = true := by
  obtain ⟨d, ds, digits⟩ := List.exists_cons_of_ne_nil (Nat.toDigits_ne_nil (n := n) (b := 10))
  exact ⟨d, ds, digits, fun c member =>
    Nat.isDigit_of_mem_toDigits (by decide) (by decide) (digits ▸ member)⟩

/-- The decimal digits of a positive number do not start with `0`. -/
theorem toDigits_head_ne_zero {n : Nat} (positive : 0 < n) {d : Char} {ds : List Char}
    (digits : Nat.toDigits 10 n = d :: ds) : d ≠ '0' := by
  induction n using Nat.strongRecOn generalizing d ds with
  | _ n ih =>
    rw [Nat.toDigits_eq_if (by decide)] at digits
    split at digits
    · obtain ⟨rfl, -⟩ := List.cons.inj digits
      simpa using Nat.pos_iff_ne_zero.mp positive
    · next large =>
        obtain ⟨d', ds', higher⟩ :=
          List.exists_cons_of_ne_nil (Nat.toDigits_ne_nil (n := n / 10) (b := 10))
        rw [higher, List.cons_append] at digits
        obtain ⟨rfl, -⟩ := List.cons.inj digits
        exact ih (n / 10) (by omega) (by omega) higher

theorem le_foldl_digits (s : Nat) (ds : List Nat) : s ≤ ds.foldl (fun acc d => acc * 10 + d) s := by
  induction ds generalizing s with
  | nil => exact Nat.le_refl s
  | cons d more ih => exact Nat.le_trans (by omega) (ih (s * 10 + d))

/-- Digits whose value fits the significand are all kept. -/
theorem absorbDigits_of_le {s : Nat} {ds : List Nat}
    (fits : ds.foldl (fun acc d => acc * 10 + d) s ≤ maxSignificand) :
    absorbDigits s ds = (ds.foldl (fun acc d => acc * 10 + d) s, 0) := by
  induction ds generalizing s with
  | nil => rfl
  | cons d more ih =>
      have within : s * 10 + d ≤ maxSignificand := Nat.le_trans (le_foldl_digits _ more) fits
      rw [absorbDigits, if_neg (by omega)]
      exact ih fits

theorem foldl_digitValues {n : Nat} {d : Char} {ds : List Char}
    (digits : Nat.toDigits 10 n = d :: ds) :
    (ds.map digitValue).foldl (fun acc x => acc * 10 + x) (digitValue d) = n := by
  have value := Nat.ofDigitChars_ten_toDigits (n := n)
  rw [digits, Nat.ofDigitChars_cons, Nat.ofDigitChars_eq_foldl] at value
  rw [List.foldl_map]
  simpa [digitValue, Nat.mul_comm] using value

/-- What may follow a value in written text: a comma, a closing bracket or brace, or nothing. -/
def Separated (rest : List Char) : Prop :=
  ∀ c ∈ rest.head?, c = ',' ∨ c = ']' ∨ c = '}'

/-- The digits before a separator are the number's digits. -/
theorem Separated.takeWhile_digits {ds rest : List Char} (sep : Separated rest)
    (digits : ∀ c ∈ ds, c.isDigit = true) : (ds ++ rest).takeWhile Char.isDigit = ds := by
  have stops : rest.takeWhile Char.isDigit = [] := by
    cases rest with
    | nil => rfl
    | cons c more => rcases sep c rfl with rfl | rfl | rfl <;> rfl
  rw [List.takeWhile_append_of_pos digits, stops, List.append_nil]

theorem Separated.dropWhile_digits {ds rest : List Char} (sep : Separated rest)
    (digits : ∀ c ∈ ds, c.isDigit = true) : (ds ++ rest).dropWhile Char.isDigit = rest := by
  have stops : rest.dropWhile Char.isDigit = rest := by
    cases rest with
    | nil => rfl
    | cons c more => rcases sep c rfl with rfl | rfl | rfl <;> rfl
  rw [List.dropWhile_append_of_pos digits, stops]

theorem afterInteger_separated {rest : List Char} (sep : Separated rest) (n : Nat) :
    afterInteger true n 0 rest = .ok (.unsigned n) := by
  cases rest with
  | nil => rfl
  | cons c more => rcases sep c rfl with rfl | rfl | rfl <;> rfl

/-- The decimal digits of a number that fits 64 bits are read back as that number. -/
theorem readNumber_toDigits {n : Nat} (fits : n ≤ maxSignificand) {rest : List Char}
    (sep : Separated rest) : readNumber true (Nat.toDigits 10 n ++ rest) = .ok (.unsigned n) := by
  rcases Nat.eq_zero_or_pos n with rfl | positive
  · rw [Nat.toDigits_zero]
    cases rest with
    | nil => rfl
    | cons c more => rcases sep c rfl with rfl | rfl | rfl <;> rfl
  · obtain ⟨d, ds, digits, allDigits⟩ := exists_decimal_cons n
    have later : ∀ c ∈ ds, c.isDigit = true := fun c member =>
      allDigits c (List.mem_cons_of_mem d member)
    have value := foldl_digitValues digits
    rw [digits, List.cons_append, readNumber.eq_def]
    dsimp only
    rw [if_neg (toDigits_head_ne_zero positive digits), if_pos (allDigits d List.mem_cons_self)]
    simp only [sep.takeWhile_digits later, sep.dropWhile_digits later,
      absorbDigits_of_le (value ▸ fits), value]
    exact afterInteger_separated sep n

/-! ### Written values -/

theorem number_render_toList (n : Nat) : (Value.number n).render.toList = Nat.toDigits 10 n := by
  rw [Value.render, Nat.toString_eq_ofList_toDigits, String.toList_ofList]

/-- The written text of a value starts with a character that is neither blank nor a separator. -/
theorem render_head (v : Value) :
    ∃ c cs, v.render.toList = c :: cs ∧ isBlank c = false ∧ c ≠ ']' ∧ c ≠ ',' := by
  cases v with
  | null => exact ⟨'n', _, rfl, rfl, by decide, by decide⟩
  | bool b => cases b <;> exact ⟨_, _, rfl, rfl, by decide, by decide⟩
  | number n =>
      obtain ⟨d, ds, digits, allDigits⟩ := exists_decimal_cons n
      have digit := allDigits d List.mem_cons_self
      exact ⟨d, ds, by rw [number_render_toList, digits], isBlank_of_isDigit digit,
        ne_of_isDigit digit (by decide), ne_of_isDigit digit (by decide)⟩
  | string s => exact ⟨'"', _, quoteJson_toList s, rfl, by decide, by decide⟩
  | array items =>
      exact ⟨'[', (renderItems items).toList ++ [']'], by simp [Value.render], rfl, by decide,
        by decide⟩
  | object entries =>
      exact ⟨'{', (renderEntries entries).toList ++ ['}'], by simp [Value.render], rfl, by decide,
        by decide⟩

/-- Only `null` is written starting with `n`. -/
theorem head_ne_n_of_ne_null {v : Value} (notNull : v ≠ .null) :
    ∀ c ∈ v.render.toList.head?, c ≠ 'n' := by
  cases v with
  | null => exact absurd rfl notNull
  | bool b => cases b <;> simp [Value.render]
  | number n =>
      obtain ⟨d, ds, digits, allDigits⟩ := exists_decimal_cons n
      rw [number_render_toList, digits]
      intro c first
      rw [Option.mem_def, List.head?_cons, Option.some.injEq] at first
      subst first
      exact ne_of_isDigit (allDigits d List.mem_cons_self) (by decide)
  | string s => simp [Value.render, quoteJson]
  | array items => simp [Value.render]
  | object entries => simp [Value.render]

/-- The elements after the first are each written after a comma. -/
theorem renderItems_toList (v : Value) (vs : List Value) :
    (renderItems (v :: vs)).toList =
      v.render.toList ++ vs.flatMap fun w => ',' :: w.render.toList := by
  induction vs generalizing v with
  | nil => simp [renderItems]
  | cons w ws ih => simp [renderItems, ih]

theorem array_render_toList (items : List Value) :
    (Value.array items).render.toList = '[' :: ((renderItems items).toList ++ [']']) := by
  simp [Value.render]

/-! ### Values read back -/

namespace Decoder

/-- `d` reads the written text of `v` as `a`, and leaves the text after it, whenever that text
goes on as written text does. -/
def Reads (d : Decoder α) (v : Value) (a : α) : Prop :=
  ∀ rest, Separated rest → forgetBound (d.run (v.render.toList ++ rest)) = .ok (a, rest)

theorem Reads.map {d : Decoder α} {v : Value} {a : α} (reads : d.Reads v a) (f : α → β) :
    (d.map f).Reads v (f a) := by
  intro rest sep
  obtain ⟨bound, ran⟩ := eq_ok_of_forgetBound (reads rest sep)
  simp [Decoder.map, ran, forgetBound, Except.map]

theorem string_reads (s : String) : string.Reads (.string s) s := by
  intro rest _
  rw [Value.render, quoteJson_toList_append]
  simp only [string, blankTail_cons (show isBlank '"' = false by decide), if_true]
  refine (forgetBound_map_bound ?_).trans (readString_quoted s rest)
  exact fun _ => ⟨rfl, rfl⟩

theorem u32_reads {n : Nat} (fits : n ≤ 0xFFFFFFFF) : u32.Reads (.number n) n := by
  intro rest sep
  obtain ⟨d, ds, digits, allDigits⟩ := exists_decimal_cons n
  have digit := allDigits d List.mem_cons_self
  have chars : (Value.number n).render.toList = d :: ds := by
    rw [number_render_toList, digits]
  have number : readNumber true (d :: (ds ++ rest)) = .ok (.unsigned n) := by
    rw [← List.cons_append, ← digits]
    exact readNumber_toDigits (by unfold maxSignificand; omega) sep
  have dropped := sep.dropWhile_digits fun c member => allDigits c (List.mem_cons_of_mem d member)
  rw [chars, List.cons_append]
  simp only [u32, blankTail_cons (isBlank_of_isDigit digit), digit, or_true, if_true,
    ne_of_isDigit digit (show ('-').isDigit = false by decide), if_false, number]
  simp [Number.toU32, fits, bind, Except.bind, Except.map, forgetBound, dropped]

/-! ### Arrays -/

variable {d : Decoder α}

theorem nextElement_close (first : Bool) (rest : List Char) :
    nextElement first (']' :: rest) = .ok none := by
  simp [nextElement, blankTail_cons (show isBlank ']' = false by decide)]

theorem nextElement_first {c : Char} {cs : List Char} (solid : isBlank c = false)
    (notClose : c ≠ ']') : nextElement true (c :: cs) = .ok (some ⟨c :: cs, Nat.le_refl _⟩) := by
  simp [nextElement, blankTail_cons solid, notClose]

theorem nextElement_comma {c : Char} {cs : List Char} (solid : isBlank c = false)
    (notClose : c ≠ ']') :
    nextElement false (',' :: c :: cs) = .ok (some ⟨c :: cs, Nat.le_succ _⟩) := by
  simp [nextElement, blankTail_cons solid, blankTail_cons (show isBlank ',' = false by decide),
    notClose]

theorem elements_close (acc : List α) (first : Bool) (rest : List Char) :
    forgetBound (elements d acc first (']' :: rest)) = .ok (acc.reverse, rest) := by
  rw [elements, nextElement_close]
  simp [closeSeq, blankTail_cons (show isBlank ']' = false by decide), forgetBound, Except.map]

theorem elements_step {acc : List α} {first : Bool} {s t rest : List Char}
    {ht : t.length ≤ s.length} {a : α} (next : nextElement first s = .ok (some ⟨t, ht⟩))
    (ran : forgetBound (d.run t) = .ok (a, rest)) :
    forgetBound (elements d acc first s) = forgetBound (elements d (a :: acc) false rest) := by
  obtain ⟨shorter, ran⟩ := eq_ok_of_forgetBound ran
  rw [elements, next]
  simp only [ran]
  exact forgetBound_map_bound fun _ => ⟨rfl, rfl⟩

/-- Text that goes on with more elements or the closing bracket is separated. -/
theorem separated_items (write : α → Value) (xs : List α) (rest : List Char) :
    Separated ((xs.flatMap fun x => ',' :: (write x).render.toList) ++ ']' :: rest) := by
  cases xs <;> simp [Separated]

/-- The elements after the first, each after its comma, are read up to the closing bracket. -/
theorem elements_more {write : α → Value} {xs : List α} (reads : ∀ x ∈ xs, d.Reads (write x) x)
    (acc : List α) (rest : List Char) :
    forgetBound (elements d acc false
        ((xs.flatMap fun x => ',' :: (write x).render.toList) ++ ']' :: rest)) =
      .ok (acc.reverse ++ xs, rest) := by
  induction xs generalizing acc with
  | nil =>
      rw [List.flatMap_nil, List.nil_append, List.append_nil]
      exact elements_close acc false rest
  | cons x more ih =>
      obtain ⟨c, cs, chars, solid, notClose, -⟩ := render_head (write x)
      have ran := reads x List.mem_cons_self _ (separated_items write more rest)
      rw [chars, List.cons_append] at ran
      rw [List.flatMap_cons, List.append_assoc, List.cons_append, chars, List.cons_append,
        elements_step (nextElement_comma solid notClose) ran,
        ih fun y member => reads y (List.mem_cons_of_mem x member)]
      simp

/-- An array of written values is read back element by element. -/
theorem list_reads {write : α → Value} {xs : List α} (reads : ∀ x ∈ xs, d.Reads (write x) x) :
    (list d).Reads (.array (xs.map write)) xs := by
  intro rest _
  rw [array_render_toList, List.cons_append]
  simp only [list, blankTail_cons (show isBlank '[' = false by decide), if_true]
  refine (forgetBound_map_bound ?_).trans ?_
  · exact fun _ => ⟨rfl, rfl⟩
  cases xs with
  | nil =>
      rw [List.map_nil, renderItems.eq_1, String.toList_empty, List.nil_append,
        List.singleton_append]
      exact elements_close [] true rest
  | cons x more =>
      obtain ⟨c, cs, chars, solid, notClose, -⟩ := render_head (write x)
      have text : (renderItems ((x :: more).map write)).toList ++ [']'] ++ rest =
          c :: (cs ++ ((more.flatMap fun y => ',' :: (write y).render.toList) ++ ']' :: rest)) := by
        rw [List.map_cons, renderItems_toList, chars]
        simp [List.flatMap_map]
      have ran := reads x List.mem_cons_self _ (separated_items write more rest)
      rw [chars, List.cons_append] at ran
      rw [text, elements_step (nextElement_first solid notClose) ran,
        elements_more (fun y member => reads y (List.mem_cons_of_mem x member))]
      rfl

/-! ### Optional values -/

/-- A value that is not `null` is read by an optional decoder as present. -/
theorem option_reads_some {v : Value} {a : α} (reads : d.Reads v a) (notNull : v ≠ .null) :
    (option d).Reads v (some a) := by
  intro rest sep
  obtain ⟨c, cs, chars, solid, -, -⟩ := render_head v
  obtain ⟨shorter, ran⟩ := eq_ok_of_forgetBound (reads rest sep)
  have notN : c ≠ 'n' := head_ne_n_of_ne_null notNull c (by rw [chars]; rfl)
  have start : blankTail (v.render.toList ++ rest) = ⟨v.render.toList ++ rest, Nat.le_refl _⟩ := by
    rw [chars, List.cons_append]
    exact blankTail_cons solid
  simp only [option, start]
  split
  · next same =>
      have text := congrArg Subtype.val same
      dsimp only at text
      rw [chars, List.cons_append] at text
      exact absurd (List.cons.inj text).1 notN
  · simp [ran, forgetBound, Except.map]

/-! ### Objects -/

/-- The text of an object entry: its quoted key, a colon and its value. -/
def entryText (entry : String × Value) : List Char :=
  (quoteJson entry.1).toList ++ ':' :: entry.2.render.toList

/-- The entries after the first are each written after a comma. -/
theorem renderEntries_toList (entry : String × Value) (more : List (String × Value)) :
    (renderEntries (entry :: more)).toList =
      entryText entry ++ more.flatMap fun e => ',' :: entryText e := by
  induction more generalizing entry with
  | nil => simp [renderEntries, entryText]
  | cons e es ih => simp [renderEntries, entryText, ih]

theorem object_render_toList (entries : List (String × Value)) :
    (Value.object entries).render.toList = '{' :: ((renderEntries entries).toList ++ ['}']) := by
  simp [Value.render]

theorem nextKey_close (first : Bool) (rest : List Char) :
    nextKey first ('}' :: rest) = .ok none := by
  simp [nextKey, blankTail_cons (show isBlank '}' = false by decide)]

theorem nextKey_first (key : String) (t : List Char) :
    ∃ h, nextKey true ((quoteJson key).toList ++ t) = .ok (some (key, ⟨t, h⟩)) := by
  obtain ⟨shorter, read⟩ := eq_ok_of_forgetBound (readString_quoted key t)
  rw [quoteJson_toList_append]
  refine ⟨by rw [List.length_cons]; omega, ?_⟩
  simp only [nextKey, blankTail_cons (show isBlank '"' = false by decide), read]
  rfl

theorem nextKey_comma (key : String) (t : List Char) :
    ∃ h, nextKey false (',' :: ((quoteJson key).toList ++ t)) = .ok (some (key, ⟨t, h⟩)) := by
  obtain ⟨shorter, read⟩ := eq_ok_of_forgetBound (readString_quoted key t)
  rw [quoteJson_toList_append]
  refine ⟨by rw [List.length_cons, List.length_cons]; omega, ?_⟩
  simp only [nextKey, blankTail_cons (show isBlank ',' = false by decide),
    blankTail_cons (show isBlank '"' = false by decide), read]
  rfl

/-- One entry whose key names a field not met before: its value is stored, its key is met. -/
theorem entries_step {fields : List (Field Decoder α)} {value : α} {seen : List String}
    {first : Bool} {s t rest : List Char} {key : String} {field : Field Decoder α} {store : α → α}
    {hk : (':' :: t).length < s.length}
    (next : nextKey first s = .ok (some (key, ⟨':' :: t, hk⟩)))
    (known : fields.find? (·.name == key) = some field) (fresh : key ∉ seen)
    (ran : forgetBound (field.read.run t) = .ok (store, rest)) :
    forgetEntriesBound (entries fields value seen first s) =
      forgetEntriesBound (entries fields (store value) (key :: seen) false rest) := by
  obtain ⟨shorter, ran⟩ := eq_ok_of_forgetBound ran
  have absent : seen.contains key = false := by simpa using fresh
  rw [entries, next]
  simp only [known, Option.isSome_some, absent, Bool.and_false, colon,
    blankTail_cons (show isBlank ':' = false by decide), if_true, ran]
  exact forgetEntriesBound_map_bound fun _ => ⟨rfl, rfl, rfl⟩

end Decoder

namespace Field

variable {ρ : Type → Type} (Reads : ∀ {β : Type}, ρ β → Value → β → Prop)

/-- The entries `written`, in order, have keys that name fields of `fields`, none met in `seen`
or twice, and values that the fields read, as `Reads` says; read in turn they store `update`
into a record. -/
inductive Stores (fields : List (Field ρ α)) :
    List String → List (String × Value) → (α → α) → Prop
  | nil (seen : List String) : Stores fields seen [] id
  | cons {seen : List String} {key : String} {v : Value} {more : List (String × Value)}
      {field : Field ρ α} {store update : α → α} :
      fields.find? (·.name == key) = some field → key ∉ seen → Reads field.read v store →
      Stores fields (key :: seen) more update → Stores fields seen ((key, v) :: more) (update ∘ store)

end Field

namespace Decoder

variable {d : Decoder α}

/-- Text that goes on with more entries or the closing brace is separated. -/
theorem separated_entries (more : List (String × Value)) (rest : List Char) :
    Separated ((more.flatMap fun e => ',' :: entryText e) ++ '}' :: rest) := by
  cases more <;> simp [Separated]

/-- The entries after the first, each after its comma, are read up to the closing brace. -/
theorem entries_more {fields : List (Field Decoder α)} {seen : List String}
    {written : List (String × Value)} {update : α → α}
    (stores : Field.Stores Decoder.Reads fields seen written update) (value : α)
    (rest : List Char) :
    forgetEntriesBound (entries fields value seen false
        ((written.flatMap fun e => ',' :: entryText e) ++ '}' :: rest)) =
      .ok (update value, (written.map Prod.fst).reverse ++ seen, '}' :: rest) := by
  induction stores generalizing value with
  | nil seen =>
      rw [List.flatMap_nil, List.nil_append, entries, nextKey_close]
      rfl
  | @cons seen key v more field store update known fresh reads _ ih =>
      let after := (more.flatMap fun e => ',' :: entryText e) ++ '}' :: rest
      obtain ⟨hk, next⟩ := nextKey_comma key (':' :: (v.render.toList ++ after))
      have text : (((key, v) :: more).flatMap fun e => ',' :: entryText e) ++ '}' :: rest =
          ',' :: ((quoteJson key).toList ++ ':' :: (v.render.toList ++ after)) := by
        simp [entryText, after]
      rw [text, entries_step next known fresh (reads after (separated_entries more rest)), ih]
      simp

/-- An object whose entries store into a record, and give every field without a default, is read
as that record. -/
theorem record_reads {what : String} {fields : List (Field Decoder α)} {start : α}
    {written : List (String × Value)} {update : α → α}
    (stores : Field.Stores Decoder.Reads fields [] written update)
    (given : ∀ field ∈ fields, field.optional = false → field.name ∈ written.map Prod.fst) :
    (record what fields start).Reads (.object written) (update start) := by
  intro rest _
  have entriesRead : forgetEntriesBound
      (entries fields start [] true ((renderEntries written).toList ++ '}' :: rest)) =
        .ok (update start, (written.map Prod.fst).reverse, '}' :: rest) := by
    cases stores with
    | nil =>
        rw [renderEntries.eq_1, String.toList_empty, List.nil_append, entries, nextKey_close]
        rfl
    | @cons _ key v more field store update known fresh reads storesMore =>
        let after := (more.flatMap fun e => ',' :: entryText e) ++ '}' :: rest
        obtain ⟨hk, next⟩ := nextKey_first key (':' :: (v.render.toList ++ after))
        have text : (renderEntries ((key, v) :: more)).toList ++ '}' :: rest =
            (quoteJson key).toList ++ ':' :: (v.render.toList ++ after) := by
          rw [renderEntries_toList]
          simp [entryText, after]
        rw [text, entries_step next known fresh (reads after (separated_entries more rest)),
          entries_more storesMore]
        simp
  obtain ⟨shorter, ran⟩ := eq_ok_of_forgetEntriesBound entriesRead
  have complete : fields.find? (fun field =>
      !field.optional && !((written.map Prod.fst).reverse).contains field.name) = none := by
    rw [List.find?_eq_none]
    intro field member
    cases optional : field.optional
    · simpa using given field member optional
    · simp
  rw [object_render_toList, List.cons_append, List.append_assoc, List.singleton_append]
  simp only [record, blankTail_cons (show isBlank '{' = false by decide), if_true, ran, complete]
  simp [closeMap, blankTail_cons (show isBlank '}' = false by decide), forgetBound, Except.map,
    Rest.within]

/-- A value read back with nothing after it is what the whole text parses to. -/
theorem parse_of_reads {v : Value} {a : α} (reads : d.Reads v a) : d.parse v.render = .ok a := by
  have ran := reads [] (by simp [Separated])
  rw [List.append_nil] at ran
  obtain ⟨shorter, ran⟩ := eq_ok_of_forgetBound ran
  simp [parse, ran, skipBlank]

end Decoder

end RealmAccess.Json
