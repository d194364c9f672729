import Calculator.Fault

/-!
# Factorials

`factorial` of a whole number from 0 to `factorialBound`, the greatest whose
factorial is finite; other numbers are refused with the reason.
-/

namespace Calculator

/-- The greatest number with a finite factorial. -/
def factorialBound : Nat := 170

/-- The product of the numbers from two to `n`, rounded after each factor. -/
def productTo (n : Nat) : Float :=
  (List.range' 2 (n - 1)).foldl (fun product factor => product * Float.ofNat factor) 1.0

def factorial (x : Float) : Except Cause Float :=
  if x < 0.0 then .error (.factorialOfNegative x)
  else
    match (Decimal.Binary.ofFloat x).magnitude? with
    | none => .error (.factorialOfFraction x)
    | some n => if n ≤ factorialBound then .ok (productTo n) else .error (.factorialTooLarge x)

end Calculator
