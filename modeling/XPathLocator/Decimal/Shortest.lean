/-!
# `XPathLocator.Decimal.Shortest`: the fewest digits that read back

A finite binary number is written with the fewest decimal digits that still
read back as it. `Magnitude.ofBits` takes the number apart into `m · 2^q`; the
reals that round to it form an interval around it, whose ends belong to it when
`m` is even. `shortest` looks for a multiple of a power of ten in that
interval, the coarsest grid first. On each grid only the two neighbours of the
number can be the answer; of two hits the nearer is taken, and of two equally
near the even one. Seventeen digits always suffice.

Everything is computed in whole numbers, so nothing is lost on the way.

`Layout` says where the point goes and when an exponent is written.
-/

set_option autoImplicit false

namespace XPathLocator.Decimal

/-- A positive number `mantissa · 2^exponent`, as a double holds it. `atBinade`
marks the least mantissa of its binade, whose lower neighbour is nearer. -/
structure Magnitude where
  mantissa : Nat
  exponent : Int
  atBinade : Bool

/-- The magnitude in the lower 63 bits of a double, `none` for zero. -/
def Magnitude.ofBits (bits : Nat) : Option Magnitude :=
  let fraction : Nat := bits % Nat.pow 2 52
  let biased : Nat := bits / Nat.pow 2 52 % Nat.pow 2 11
  if biased = 0 then
    if fraction = 0 then none else some ⟨fraction, -1074, false⟩
  else
    some ⟨Nat.pow 2 52 + fraction, biased - 1075, fraction = 0 && 1 < biased⟩

/-- A quotient of whole numbers. -/
structure Ratio where
  num : Nat
  den : Nat

/-- The number `n · 2^q · 10^k` as a quotient. -/
def Ratio.scaled (n : Nat) (q k : Int) : Ratio where
  num := n * Nat.pow 2 q.toNat * Nat.pow 10 k.toNat
  den := Nat.pow 2 (-q).toNat * Nat.pow 10 (-k).toNat

/-- The numbers that read back as a given one, counted in units of `10^place`:
the number itself and the two ends of its interval, over one denominator. -/
structure Interval where
  low : Nat
  value : Nat
  high : Nat
  den : Nat
  /-- Whether the ends belong to it. -/
  closed : Bool

/-- The interval of a magnitude in units of `10^place`. Its ends lie half way to
the neighbours, so quarters of the last binary place suffice. -/
def Interval.around (x : Magnitude) (place : Int) : Interval :=
  let at4 (n : Nat) := Ratio.scaled n (x.exponent - 2) (-place)
  let four := 4 * x.mantissa
  { low := (at4 (if x.atBinade then four - 1 else four - 2)).num
    value := (at4 four).num
    high := (at4 (four + 2)).num
    den := (at4 four).den
    closed := x.mantissa % 2 = 0 }

/-- Whether `n` units lie in the interval. -/
def Interval.holds (i : Interval) (n : Nat) : Bool :=
  let x := n * i.den
  if i.closed then i.low ≤ x && x ≤ i.high else i.low < x && x < i.high

/-- The whole number of units in the interval that is nearest to its value, if
there is one: a neighbour of the value, the even one of two equally near. -/
def Interval.nearest? (i : Interval) : Option Nat :=
  let below := i.value / i.den
  let left := i.value - below * i.den
  let right := i.den - left
  match i.holds below, i.holds (below + 1) with
  | true, true =>
    some (if left < right || (left = right && below % 2 = 0) then below else below + 1)
  | true, false => some below
  | false, true => some (below + 1)
  | false, false => none

/-- The exponent of the leading decimal digit: the greatest `e` with
`10^e ≤ x`. The estimate from the binary exponent is off by one at most. -/
def Magnitude.leading (x : Magnitude) : Int :=
  let estimate := (x.mantissa.log2 + x.exponent) * 30103 / 100000
  let reaches (e : Int) : Bool :=
    let r := Ratio.scaled x.mantissa x.exponent (-e)
    r.den ≤ r.num
  if reaches (estimate + 1) then estimate + 1
  else if reaches estimate then estimate
  else estimate - 1

/-- A decimal number `digits · 10^place`. -/
structure Digits where
  digits : Nat
  place : Int

/-- Moves trailing zeros of the digits into the place. -/
def Digits.normal (d : Digits) : Digits :=
  if h : d.digits ≠ 0 ∧ d.digits % 10 = 0 then
    Digits.normal ⟨d.digits / 10, d.place + 1⟩
  else d
termination_by d.digits
decreasing_by exact Nat.div_lt_self (Nat.pos_of_ne_zero h.1) (by decide)

/-- The fewest digits that read back as `x`, and of those the nearest. -/
def shortest (x : Magnitude) : Digits :=
  let leading := x.leading
  let onGrid (count : Nat) : Option Digits :=
    let place := leading + 1 - count
    (Interval.around x place).nearest?.map fun n => Digits.normal ⟨n, place⟩
  ((List.range' 1 17).findSome? onGrid).getD ⟨0, 0⟩

/-- How a decimal number is laid out. It is written without an exponent while
the point stands at most `maxWhole` places to the right of the first digit and
fewer than `maxZeros` places to its left. -/
structure Layout where
  maxWhole : Int
  maxZeros : Int

/-- The text of `digits · 10^place`. A positional number always has a point and
a digit on both sides of it; an exponent has a sign only when negative. -/
def Layout.render (layout : Layout) (d : Digits) : String :=
  let text := toString d.digits
  let point := text.length + d.place
  if 0 ≤ d.place && point ≤ layout.maxWhole then
    text ++ "".pushn '0' d.place.toNat ++ ".0"
  else if 0 < point && point ≤ layout.maxWhole then
    .ofList (text.toList.take point.toNat) ++ "." ++ .ofList (text.toList.drop point.toNat)
  else if -layout.maxZeros < point && point ≤ 0 then
    "0." ++ "".pushn '0' (-point).toNat ++ text
  else
    let fraction := text.toList.drop 1
    .ofList (text.toList.take 1) ++ (if fraction.isEmpty then "" else "." ++ .ofList fraction)
      ++ "e" ++ toString (point - 1)

/-- The text of a finite double. -/
def Layout.renderFloat (layout : Layout) (x : Float) : String :=
  let bits := x.toBits.toNat
  let sign := if bits / Nat.pow 2 63 % 2 = 1 then "-" else ""
  match Magnitude.ofBits bits with
  | none => sign ++ "0.0"
  | some magnitude => sign ++ layout.render (shortest magnitude)

end XPathLocator.Decimal
