import Calculator.Text.Blank

/-!
# Verbosity

How important an event has to be to be reported. `Verbosity.ofName` reads the
name of a level in any case; whatever it does not know means warnings.
-/

namespace Calculator

inductive Verbosity where
  /-- Everything. -/
  | unset
  | debug
  | info
  | warning
  | error
  | critical
  deriving DecidableEq, Repr

namespace Verbosity

/-- The rank of a level; a higher one reports less. -/
def rank : Verbosity → Nat
  | unset => 0
  | debug => 10
  | info => 20
  | warning => 30
  | error => 40
  | critical => 50

/-- The letter in upper case, for the letters whose upper case is an ASCII one. -/
def upper (c : Char) : Char :=
  if c = 'ı' then 'I' else if c = 'ſ' then 'S' else c.toUpper

/-- The names of the levels. -/
def names : List (String × Verbosity) :=
  [("CRITICAL", critical), ("FATAL", critical), ("ERROR", error), ("WARNING", warning),
   ("WARN", warning), ("INFO", info), ("DEBUG", debug), ("NOTSET", unset)]

/-- The level that a name asks for. -/
def ofName (name : Option String) : Verbosity :=
  match name with
  | none => warning
  | some name =>
      let word := String.ofList ((Text.trim name).toList.map upper)
      (names.lookup word).getD warning

end Verbosity

end Calculator
