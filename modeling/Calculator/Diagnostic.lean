import Calculator.Fault

/-!
# Diagnostics

A diagnostic shows a fault to the reader: a header, and below it, if the place
is known, a window of the text with a caret under the character to blame.
-/

namespace Calculator

/-- A message about a text. -/
structure Diagnostic where
  category : Category
  message : String
  code : String
  position : Option Int
  deriving Repr

namespace Diagnostic

/-- How many characters are shown on either side of the blamed one. -/
def reach : Nat := 10

def header (d : Diagnostic) : String := "[" ++ d.category.heading ++ "] " ++ d.message

/-- The part of the text around a place, with dots where more is left out, and
the column of the place in it. -/
def window (code : List Char) (position : Nat) : List Char × Nat :=
  let start := position - reach
  let stop := min code.length (position + reach)
  let before := if 0 < start then ['.', '.', '.'] else []
  let after := if stop < code.length then ['.', '.', '.'] else []
  (before ++ (code.drop start).take (stop - start) ++ after, before.length + (position - start))

/-- The whole message. Places before and after the text count as its ends. -/
def render (d : Diagnostic) : String :=
  match d.position with
  | none => d.header
  | some position =>
      let code := d.code.toList
      if code.isEmpty then d.header
      else
        let (line, column) := window code (min position.toNat code.length)
        d.header ++ "\n" ++ String.ofList line ++ "\n" ++
          String.ofList (List.replicate column ' ' ++ ['^'])

/-- A message with a place shows the text around it. -/
theorem render_of_position {d : Diagnostic} {place : Nat}
    (here : d.position = some (place : Int)) (nonempty : d.code ≠ "")
    (inside : place ≤ d.code.length) :
    d.render = d.header ++ "\n" ++ String.ofList (window d.code.toList place).1 ++ "\n" ++
      String.ofList (List.replicate (window d.code.toList place).2 ' ' ++ ['^']) := by
  have some : d.code.toList.isEmpty = false := by
    rwa [List.isEmpty_eq_false_iff, ne_eq, String.toList_eq_nil_iff]
  have clamped : min (place : Int).toNat d.code.toList.length = place := by
    rw [String.length_toList, Int.toNat_natCast]
    omega
  simp only [render, here, some, clamped]
  rfl

end Diagnostic

/-- The diagnostic of a fault in a text. -/
def Fault.diagnostic (code : String) (fault : Fault) : Diagnostic :=
  ⟨fault.cause.category, fault.cause.message, code, fault.position⟩

/-- The message of a fault in a text. -/
def Fault.describe (code : String) (fault : Fault) : String := (fault.diagnostic code).render

end Calculator
