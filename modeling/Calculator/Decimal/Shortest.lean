import Calculator.Decimal.Binary
import Calculator.Decimal.Scaled

/-!
# The shortest decimal that reads back

The decimals that round to a binary64 number fill an interval around it, ends
included if the mantissa is even. `shortest` looks for the coarsest power of
ten with a multiple in that interval; of two neighbouring multiples the nearer
wins, the even one if both are equally near.
-/

namespace Calculator.Decimal

/-- The decimals that round to one binary number, as quarters of the unit of its
mantissa over a common denominator: `value / scale` lies between
`low / scale` and `high / scale`. -/
structure Interval where
  low : Nat
  value : Nat
  high : Nat
  scale : Nat
  closed : Bool
  deriving Repr

/-- The interval of `mantissa * 2 ^ exponent`. Below a power of two the numbers
are twice as dense, unless the exponent is the least. -/
def Interval.of (mantissa : Nat) (exponent : Int) : Interval :=
  let up := Nat.pow 2 (exponent - 2).toNat
  let below := if mantissa = Nat.pow 2 52 ∧ exponent ≠ -1074 then 1 else 2
  { low := (4 * mantissa - below) * up
    value := 4 * mantissa * up
    high := (4 * mantissa + 2) * up
    scale := Nat.pow 2 (2 - exponent).toNat
    closed := mantissa % 2 = 0 }

/-- Whether a number over the same denominator lies in the interval. -/
def Interval.contains (i : Interval) (n : Nat) : Bool :=
  if i.closed then i.low ≤ n && n ≤ i.high else i.low < n && n < i.high

/-- The multiple of `10 ^ exponent` in the interval that is nearest to its value. -/
def Interval.nearest? (i : Interval) (exponent : Int) : Option Nat :=
  -- over the denominator `i.scale * down`, a multiple `d` is the number `d * step`
  let down := Nat.pow 10 (-exponent).toNat
  let step := i.scale * Nat.pow 10 exponent.toNat
  let j : Interval := { i with low := i.low * down, value := i.value * down, high := i.high * down }
  let d := j.value / step
  let isIn := j.contains (d * step)
  let nextIsIn := j.contains ((d + 1) * step)
  if isIn && nextIsIn then
    let rest := j.value % step
    if 2 * rest < step ∨ (2 * rest = step ∧ d % 2 = 0) then some d else some (d + 1)
  else if isIn then some d
  else if nextIsIn then some (d + 1)
  else none

/-- The first hit at `exponent` or one of the `fuel` next lower ones. -/
def Interval.search (i : Interval) : Nat → Int → Option Scaled
  | 0, _ => none
  | fuel + 1, exponent =>
      match i.nearest? exponent with
      | some d => some ⟨d, exponent⟩
      | none => i.search fuel (exponent - 1)

/-- The shortest decimal that rounds to `mantissa * 2 ^ exponent`. The search
starts above the first digit of the value, and eighteen powers of ten further
down the grid is finer than the interval. -/
def shortest (mantissa : Nat) (exponent : Int) : Scaled :=
  let order := ((mantissa.log2 + exponent + 1) * 30103).fdiv 100000
  ((Interval.of mantissa exponent).search 20 (order + 1)).getD ⟨mantissa, 0⟩

/-- The text of a number: the shortest that reads back as the same number. -/
def text (x : Float) : String :=
  match Binary.ofFloat x with
  | .notANumber => "nan"
  | .infinite negative => if negative then "-inf" else "inf"
  | .finite negative mantissa exponent =>
      let magnitude := if mantissa = 0 then ⟨0, 0⟩ else shortest mantissa exponent
      (if negative then "-" else "") ++ Layout.exact.write magnitude

end Calculator.Decimal
