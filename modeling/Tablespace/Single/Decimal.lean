import Tablespace.Single

/-!
# Decimal text of reals

A finite real is written in positional notation with the fewest digits that
read back to it, and of two such numbers as the nearer, the greater on a tie.
A whole number has no point, zero keeps its sign, a NaN has none.

The reals that round to a given one form an interval around it. Multiples of a
power of ten are tried from the coarsest power down, and the first power with
a multiple in the interval gives the digits.
-/

namespace Tablespace

/-- A positive value and the bounds of the numbers that round to it, in a common unit. -/
structure RoundingInterval where
  low : Nat
  value : Nat
  high : Nat
  closed : Bool
deriving Repr

namespace RoundingInterval

def contains (r : RoundingInterval) (x : Nat) : Bool :=
  if r.closed then r.low ≤ x && x ≤ r.high else r.low < x && x < r.high

/-- The multiple of `step` in the interval that is nearest to the value, divided by `step`. -/
def nearestMultiple? (r : RoundingInterval) (step : Nat) : Option Nat :=
  let below := r.value / step
  let above := below + 1
  match r.contains (below * step), r.contains (above * step) with
  | true, true => some (if r.value - below * step < above * step - r.value then below else above)
  | true, false => some below
  | false, true => some above
  | false, false => none

/-- Digits and power of ten of the shortest decimal, in units of which `unit` make one;
powers above `top` are not tried, and below the zeroth the value is cut off. -/
def shortest (r : RoundingInterval) (unit : Nat) : Nat → Nat × Nat
  | 0 => ((r.nearestMultiple? unit).getD (r.value / unit), 0)
  | top + 1 =>
    match r.nearestMultiple? (unit * Nat.pow 10 (top + 1)) with
    | some digits => (digits, top + 1)
    | none => r.shortest unit top

end RoundingInterval

namespace Single

/-- The scale of decimals: digits stand for multiples of `10 ^ (-scale)`. All but the zeros lie
above that, with room for the nine digits which a real can need. -/
def scale : Nat := 60

/-- A finite real other than zero is `significand * 2 ^ (exponent - 150)`. -/
def exponent (x : Single) : Nat := max 1 (x.magnitude / hiddenBit)

def significand (x : Single) : Nat :=
  if x.magnitude < hiddenBit then x.magnitude else hiddenBit + x.magnitude % hiddenBit

/-- The interval of a finite real in units of `2 ^ (-152) * 10 ^ (-scale)`. A bound lies half way
to the neighbour, and the neighbour below a power of two is only half as far. -/
def interval (x : Single) : RoundingInterval :=
  let unit := Nat.pow 10 scale <<< x.exponent
  let half := if x.magnitude % hiddenBit = 0 ∧ 1 < x.exponent then 1 else 2
  { low := (4 * x.significand - half) * unit
    value := 4 * x.significand * unit
    high := (4 * x.significand + 2) * unit
    closed := x.significand % 2 = 0 }

def positional (digits power : Nat) : String :=
  if scale ≤ power then toString (digits * Nat.pow 10 (power - scale))
  else
    let places := scale - power
    let fraction := toString (digits % Nat.pow 10 places)
    toString (digits / Nat.pow 10 places) ++ "."
      ++ String.ofList (List.replicate (places - fraction.length) '0') ++ fraction

def toDecimal (x : Single) : String :=
  if x.isNaN then "NaN"
  else
    let text :=
      if x.magnitude = infinite then "inf"
      else if x.magnitude = 0 then "0"
      else
        let (digits, power) := x.interval.shortest (1 <<< 152) (scale + 39)
        positional digits power
    if x.isNegative then "-" ++ text else text

end Single

end Tablespace
