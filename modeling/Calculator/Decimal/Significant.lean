import Calculator.Decimal.Shortest

/-!
# A number to six digits

`briefText` writes a whole number with at most six significant digits, rounded
to the nearest, a tie to the even neighbour.
-/

namespace Calculator.Decimal

/-- The quotient rounded to the nearest whole number, a tie to the even one. -/
def roundDiv (n d : Nat) : Nat :=
  let q := n / d
  if 2 * (n % d) < d ∨ (2 * (n % d) = d ∧ q % 2 = 0) then q else q + 1

/-- A whole number rounded to its first `count` digits. -/
def leadingDigits (count n : Nat) : Scaled :=
  let surplus := (digitsOf n).length - count
  ⟨roundDiv n (Nat.pow 10 surplus), surplus⟩

/-- The text of a whole number, at most six digits of it; other numbers are
written in full. -/
def briefText (x : Float) : String :=
  match (Binary.ofFloat x).magnitude? with
  | some n => (if isNegative x then "-" else "") ++ Layout.brief.write (leadingDigits 6 n)
  | none => text x

end Calculator.Decimal
