import Calculator.Decimal.Binary

/-!
# The functions of the calculator

Ten functions of one number. `Function.apply` gives none where the function is
not defined; outside the finite numbers the trigonometric functions are not a
number, and rounding changes nothing. `Function.ofName?` finds a function by
its name in lower case, `Function.called?` in any case.
-/

namespace Calculator

inductive Function where
  | sqrt
  | sin
  | cos
  | tan
  /-- The logarithm to the base ten. -/
  | log
  /-- The natural logarithm. -/
  | ln
  | exp
  | floor
  | ceil
  /-- A half is rounded away from zero. -/
  | round
  deriving DecidableEq, Repr

namespace Function

def all : List Function := [sqrt, sin, cos, tan, log, ln, exp, floor, ceil, round]

def name : Function → String
  | sqrt => "sqrt"
  | sin => "sin"
  | cos => "cos"
  | tan => "tan"
  | log => "log"
  | ln => "ln"
  | exp => "exp"
  | floor => "floor"
  | ceil => "ceil"
  | round => "round"

/-- The function with a given name. -/
def ofName? (name : String) : Option Function := all.find? fun f => f.name = name

/-- The function that a word calls, in any mixture of cases. -/
def called? (word : String) : Option Function :=
  ofName? (String.ofList (word.toList.map Char.toLower))

/-! ## Values -/

/-- A trigonometric function, which has no value at an infinity. -/
def onFinite (f : Float → Float) (x : Float) : Float :=
  if x.isFinite then f x else 0.0 / 0.0

/-- Rounding to a whole number. A result of zero has no sign. -/
def onWhole (f : Float → Float) (x : Float) : Float :=
  if x.isFinite then f x + 0.0 else x

/-- The nearest whole number, of two the one further from zero, with the sign of
the argument. -/
def roundHalfAway (x : Float) : Float :=
  if x.isFinite then
    let below := x.abs.floor
    let magnitude := if x.abs - below ≥ 0.5 then below + 1.0 else below
    if Decimal.isNegative x then -magnitude else magnitude
  else x

/-- The value of a function, if it has one there. -/
def apply : Function → Float → Option Float
  | sqrt, x => if x < 0.0 then none else some x.sqrt
  | sin, x => some (onFinite Float.sin x)
  | cos, x => some (onFinite Float.cos x)
  | tan, x => some (onFinite Float.tan x)
  | log, x => if x ≤ 0.0 then none else some x.log10
  | ln, x => if x ≤ 0.0 then none else some x.log
  | exp, x => some x.exp
  | floor, x => some (onWhole Float.floor x)
  | ceil, x => some (onWhole Float.ceil x)
  | round, x => some (roundHalfAway x)

end Function

end Calculator
