/-!
# Scaled decimals

A decimal number as whole digits times a power of ten, and its written forms.

* `Scaled`: the number `digits * 10 ^ exponent`.
* `Layout`: the choices of a number format, one value per format.
* `Layout.write`: the text of a scaled decimal in a layout.
-/

namespace Calculator.Decimal

/-- The number `digits * 10 ^ exponent`. -/
structure Scaled where
  digits : Nat
  exponent : Int
  deriving DecidableEq, Repr

/-- The decimal digits of a number, without leading zeros. -/
def digitsOf (n : Nat) : List Char := Nat.toDigits 10 n

/-- The exponent of the first digit: the number is `d.ddd * 10 ^ e`. -/
def Scaled.order (d : Scaled) : Int := d.exponent + (digitsOf d.digits).length - 1

/-- The digits without the zeros at their end; one digit always stays. -/
def Scaled.significant (d : Scaled) : List Char :=
  match digitsOf d.digits with
  | [] => ['0']
  | first :: rest => first :: (rest.reverse.dropWhile (· = '0')).reverse

/-- The choices of a number format. -/
structure Layout where
  /-- The least order written without an exponent. -/
  least : Int
  /-- The order from which on an exponent is written. -/
  bound : Int
  /-- What follows a whole number written without an exponent. -/
  wholeSuffix : String
  deriving Repr

/-- Every digit that is needed to read the number back, with a point always. -/
def Layout.exact : Layout := ⟨-4, 16, ".0"⟩

/-- Six significant digits at most, with a point only before more digits. -/
def Layout.brief : Layout := ⟨-4, 6, ""⟩

/-- An exponent has its sign and at least two digits. -/
def exponentText (e : Int) : List Char :=
  let digits := digitsOf e.natAbs
  'e' :: (if e < 0 then '-' else '+') :: (if digits.length < 2 then '0' :: digits else digits)

/-- The written form of a magnitude. -/
def Layout.write (layout : Layout) (d : Scaled) : String :=
  let digits := d.significant
  let e := d.order
  if layout.least ≤ e ∧ e < layout.bound then
    if e < 0 then
      "0." ++ String.ofList (List.replicate (-e - 1).toNat '0' ++ digits)
    else
      let whole := e.toNat + 1
      let fraction := digits.drop whole
      String.ofList (digits.take whole ++ List.replicate (whole - digits.length) '0') ++
        (if fraction.isEmpty then layout.wholeSuffix else "." ++ String.ofList fraction)
  else
    match digits with
    | [] => ""
    | first :: rest =>
        String.ofList
          (first :: (if rest.isEmpty then [] else '.' :: rest) ++ exponentText e)

end Calculator.Decimal
