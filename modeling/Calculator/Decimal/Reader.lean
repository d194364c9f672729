import Calculator.Text.Blank
import Calculator.Text.Digit

/-!
# Reading a decimal number

`read?` gives the binary64 number nearest to a written decimal. It takes

* an optional sign, then digits with at most one point and at least one digit,
  then optionally `e` or `E` with a whole exponent;
* or one of the words `inf`, `infinity` and `nan` in any case;
* decimal digits of any script, underscores between two digits, and blanks at
  both ends.
-/

namespace Calculator.Decimal

open Calculator.Text

/-- The characters skipped at the ends of a number. -/
def isPadding (c : Char) : Bool :=
  c = ' ' || c = '\t' || c = '\n' || c = '\r' || c = '\x0b' || c = '\x0c'

/-- The ASCII character of the same meaning: digits of any script become digits
and foreign blanks spaces; there is none for other foreign characters. -/
def toAscii? (c : Char) : Option Char :=
  if c.toNat < 128 then some c
  else if isBlank c then some ' '
  else (decimalValue? c).map Nat.digitChar

/-- The text without its underscores, each of which has to stand between two
digits. -/
def dropUnderscores? (afterDigit : Bool) : List Char → Option (List Char)
  | [] => some []
  | '_' :: rest =>
      if afterDigit && rest.head?.any Char.isDigit then dropUnderscores? false rest else none
  | c :: rest => (dropUnderscores? c.isDigit rest).map (c :: ·)

/-- The value of a run of ASCII digits. -/
def digitsValue (ds : List Char) : Nat :=
  ds.foldl (fun value d => 10 * value + (d.toNat - '0'.toNat)) 0

/-- The sign in front of a number and what follows it. -/
def takeSign : List Char → Bool × List Char
  | '-' :: rest => (true, rest)
  | '+' :: rest => (false, rest)
  | rest => (false, rest)

/-- The exponent at the end of a number, zero if there is none. -/
def readExponent? : List Char → Option Int
  | [] => some 0
  | mark :: rest =>
      let (negative, digits) := takeSign rest
      if (mark = 'e' || mark = 'E') && !digits.isEmpty && digits.all Char.isDigit then
        some (if negative then -(digitsValue digits : Int) else digitsValue digits)
      else none

/-- The binary number nearest to `digits * 10 ^ exponent`. Beyond the orders
`-330` and `310` the answer is zero or infinite for any digits. -/
def nearest (digits : Nat) (exponent : Int) : Float :=
  let order := (Nat.toDigits 10 digits).length + exponent
  if digits = 0 ∨ order < -330 then 0.0
  else if 310 < order then 1.0 / 0.0
  else Float.ofScientific digits (exponent < 0) exponent.natAbs

/-- A number without sign, written in digits. -/
def readMagnitude? (cs : List Char) : Option Float :=
  let whole := cs.takeWhile Char.isDigit
  let afterWhole := cs.dropWhile Char.isDigit
  let (fraction, tail) :=
    match afterWhole with
    | '.' :: rest => (rest.takeWhile Char.isDigit, rest.dropWhile Char.isDigit)
    | rest => ([], rest)
  if whole.isEmpty && fraction.isEmpty then none
  else (readExponent? tail).map fun exponent =>
    nearest (digitsValue (whole ++ fraction)) (exponent - fraction.length)

/-- A number without sign, written in digits or as a word. -/
def readUnsigned? (cs : List Char) : Option Float :=
  let word := String.ofList (cs.map Char.toLower)
  if word = "inf" || word = "infinity" then some (1.0 / 0.0)
  else if word = "nan" then some (0.0 / 0.0)
  else readMagnitude? cs

/-- The number that a text stands for. -/
def read? (s : String) : Option Float := do
  let ascii ← s.toList.mapM toAscii?
  let bare ← dropUnderscores? false (Text.trimWhere isPadding ascii)
  let (negative, digits) := takeSign bare
  let magnitude ← readUnsigned? digits
  return if negative then -magnitude else magnitude

end Calculator.Decimal
