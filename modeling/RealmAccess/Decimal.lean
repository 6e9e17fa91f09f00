
/-!
# Decimal text of a double

Messages that name a floating-point number write it with the shortest decimal digits that
read back as the same double, laid out positionally or with an exponent mark.
-/

/-! ## Shortest decimal digits of a double

A finite, nonzero double `x` stands for every real number that rounds to it: the interval
between the midpoints to its two neighbours, with both ends included exactly when the
significand of `x` is even. The shortest decimal of `x` is the decimal with the fewest
significant digits in that interval; of two such decimals the one nearer to `x` is chosen, and
an exact tie goes to the even last digit.

The search runs over digit counts `1, 2, …, 17`. For each count the only candidates are the two
neighbours of `x` on that decimal grid, since any grid point of the interval is as near to `x`
as one of them. Everything is exact `Nat` arithmetic on the value scaled to an integer.
-/

namespace RealmAccess.Decimal

/-- Significant digits and a power of ten: the decimal `digits * 10 ^ exponent`. -/
structure Scientific where
  digits : Nat
  exponent : Int
  deriving Repr, DecidableEq

/-- A finite, nonzero double as integers: its value is `mantissa * 2 ^ binaryExponent`. The
neighbour below is nearer than the neighbour above exactly when `narrowBelow` holds, at the
lowest significand of a binade. -/
structure Binary where
  mantissa : Nat
  binaryExponent : Int
  narrowBelow : Bool

/-- The significand and exponent fields of the bits of a double. -/
def Binary.ofBits (bits : UInt64) : Binary :=
  let fraction := (bits &&& 0xFFFFFFFFFFFFF).toNat
  let biased := ((bits >>> 52) &&& 0x7FF).toNat
  if biased = 0 then
    { mantissa := fraction, binaryExponent := -1074, narrowBelow := false }
  else
    { mantissa := fraction + 0x10000000000000
      binaryExponent := (biased : Int) - 1075
      narrowBelow := fraction = 0 && biased > 1 }

/-- The number of decimal digits of a positive number (one for zero). -/
def digitCount (n : Nat) : Nat :=
  (Nat.toDigits 10 n).length

/-- The same decimal without trailing zero digits. -/
def Scientific.trim (d : Scientific) : Scientific :=
  if h : 0 < d.digits ∧ d.digits % 10 = 0 then
    Scientific.trim ⟨d.digits / 10, d.exponent + 1⟩
  else d
termination_by d.digits
decreasing_by exact Nat.div_lt_self h.1 (by decide)

/-- The rounding interval of a double scaled to integers: the low end, the value and the high
end are all multiplied by one power of two or five, and `scale` is the power of ten that they
stand over. -/
structure Interval where
  low : Nat
  value : Nat
  high : Nat
  scale : Int
  closed : Bool

/-- The interval of reals that round to the double `b`. -/
def Binary.interval (b : Binary) : Interval :=
  let quarter := b.binaryExponent - 2
  let factor := if quarter ≥ 0 then Nat.pow 2 quarter.toNat else Nat.pow 5 (-quarter).toNat
  let below := if b.narrowBelow then 1 else 2
  { low := (4 * b.mantissa - below) * factor
    value := 4 * b.mantissa * factor
    high := (4 * b.mantissa + 2) * factor
    scale := if quarter ≥ 0 then 0 else quarter
    closed := b.mantissa % 2 = 0 }

/-- Whether a scaled decimal lies in the interval, ends counted as `closed` says. -/
def Interval.holds (i : Interval) (x : Nat) : Bool :=
  if i.closed then decide (i.low ≤ x) && decide (x ≤ i.high)
  else decide (i.low < x) && decide (x < i.high)

/-- The decimal of the interval with `count` significant digits nearest to its value, if the
interval holds one of the two grid neighbours of its value. The upper neighbour may carry into
a new power of ten, as for a double just below `10 ^ 23`; the decimal is then written with its
trailing zeros removed. -/
def Interval.withDigits (i : Interval) (count : Nat) : Option Scientific :=
  let dropped := digitCount i.value - count
  let step := Nat.pow 10 dropped
  let below := i.value / step * step
  let above := below + step
  let pick (x : Nat) : Scientific := Scientific.trim ⟨x / step, (dropped : Int) + i.scale⟩
  match i.holds below, i.holds above with
  | true, true =>
      if i.value - below < above - i.value then some (pick below)
      else if above - i.value < i.value - below then some (pick above)
      else if (below / step) % 2 = 0 then some (pick below) else some (pick above)
  | true, false => some (pick below)
  | false, true => some (pick above)
  | false, false => none

/-- The first digit count from `count` up to seventeen whose grid meets the interval. -/
def Interval.shortestFrom (i : Interval) (count : Nat) : Scientific :=
  if _h : count < 17 then
    match i.withDigits count with
    | some d => d
    | none => i.shortestFrom (count + 1)
  else
    (i.withDigits 17).getD ⟨i.value, i.scale⟩
termination_by 17 - count

/-- The shortest decimal that reads back as the finite, nonzero double with these bits. -/
def shortest (bits : UInt64) : Scientific :=
  (Binary.ofBits bits).interval.shortestFrom 1

/-! ## Laying out a decimal

A decimal `digits * 10 ^ exponent` is written either positionally or with an exponent mark.
Where the one ends and the other begins, and how the exponent looks, is a matter of format: a
`Layout` record holds those decisions and `Scientific.write` follows them.
-/

/-- The decisions of one format for writing decimals. The point position is the number of
digits before the decimal point, negative or zero for numbers below one. -/
structure Layout where
  /-- The largest point position still written positionally. -/
  maxPoint : Nat
  /-- The most zeros written between the point and the first digit of a number below one. -/
  maxLeadingZeros : Nat
  /-- The text between the digits and the exponent. -/
  exponentMark : String
  /-- The text in front of an exponent that is not negative. -/
  exponentPlus : String
  /-- The text after an integral value written positionally. -/
  integralSuffix : String

/-- `count` zeros. -/
def zeros (count : Nat) : String :=
  String.ofList (List.replicate count '0')

/-- The text of a decimal, with its sign written in front when `negative`. -/
def Scientific.write (layout : Layout) (negative : Bool) (d : Scientific) : String :=
  let text := String.ofList (Nat.toDigits 10 d.digits)
  let length := text.length
  let point : Int := d.exponent + length
  let sign := if negative then "-" else ""
  let body :=
    if 0 < point ∧ point ≤ layout.maxPoint then
      if length ≤ point.toNat then
        text ++ zeros (point.toNat - length) ++ layout.integralSuffix
      else
        String.ofList (text.toList.take point.toNat) ++ "." ++
          String.ofList (text.toList.drop point.toNat)
    else if -(layout.maxLeadingZeros : Int) ≤ point ∧ point ≤ 0 then
      "0." ++ zeros (-point).toNat ++ text
    else
      let mantissa :=
        if length = 1 then text
        else String.ofList (text.toList.take 1) ++ "." ++ String.ofList (text.toList.drop 1)
      let exponent := point - 1
      mantissa ++ layout.exponentMark ++ (if 0 ≤ exponent then layout.exponentPlus else "") ++
        toString exponent
  sign ++ body

end RealmAccess.Decimal
