/-!
# Binary numbers, taken apart

* `Binary.ofFloat`: a binary64 number as not a number, an infinity, or a sign
  with a whole mantissa and a power of two.
* `Binary.magnitude?`: the magnitude of a number without a fraction.
-/

namespace Calculator.Decimal

/-- What the bits of a binary64 number say. -/
inductive Binary where
  | notANumber
  | infinite (negative : Bool)
  /-- The magnitude is `mantissa * 2 ^ exponent`. -/
  | finite (negative : Bool) (mantissa : Nat) (exponent : Int)
  deriving DecidableEq, Repr

/-- A fraction of 52 bits, an exponent of 11 and a sign; the least exponent has
no hidden bit, the greatest stands for what is not finite. -/
def Binary.ofFloat (x : Float) : Binary :=
  let bits := x.toBits.toNat
  let fraction := bits % Nat.pow 2 52
  let exponent : Nat := bits / Nat.pow 2 52 % Nat.pow 2 11
  let negative : Bool := bits / Nat.pow 2 63 = 1
  if exponent = 2047 then
    if fraction = 0 then .infinite negative else .notANumber
  else if exponent = 0 then .finite negative fraction (-1074)
  else .finite negative (Nat.pow 2 52 + fraction) (exponent - 1075)

/-- The magnitude of a number, if it is finite and has no fraction. -/
def Binary.magnitude? : Binary → Option Nat
  | .finite _ mantissa exponent =>
      let scale := Nat.pow 2 (-exponent).toNat
      if mantissa % scale = 0 then some (mantissa / scale * Nat.pow 2 exponent.toNat) else none
  | _ => none

/-- The sign bit, which a zero has as well. -/
def isNegative (x : Float) : Bool := x.toBits.toNat / Nat.pow 2 63 = 1

end Calculator.Decimal
