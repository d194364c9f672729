import Calculator.Token

/-!
# Names of token sorts

The names of the sorts of tokens and of the bracket families, as messages and
dumps write them. Both namings are injective (`Shape.label_injective`), so a
dump tells the sorts apart.
-/

namespace Calculator

def Operator.label : Operator → String
  | .plus => "PLUS"
  | .minus => "MINUS"
  | .times => "PRODUCT"
  | .divide => "DIVIDE"
  | .percent => "PERCENTAGE"
  | .power => "POWER"

def Kind.label : Kind → String
  | .number => "NUMBER"
  | .operator op => op.label
  | .opening .round => "LPAREN"
  | .closing .round => "RPAREN"
  | .opening .absolute => "LABS"
  | .closing .absolute => "RABS"
  | .identifier => "IDENTIFIER"
  | .function => "FUNCTION"
  | .factorial => "FACTORIAL"
  | .assign => "ASSIGN"
  | .illegal => "ILLEGAL"

def Shape.label : Shape → String
  | .leaf kind => kind.label
  | .pointer => "POINTER"
  | .group => "SUBEXP"

/-- What is done with the value of a bracketed group. -/
def Bracket.label : Bracket → String
  | .round => "PARENTHESIZED"
  | .absolute => "ABSOLUTE_VALUE"

/-- Every sort of token, in the order of their definition. -/
def Shape.all : List Shape :=
  [.leaf .number] ++
  ([Operator.plus, .minus, .times, .divide, .percent, .power].map fun op => .leaf (.operator op)) ++
  [.leaf (.opening .round), .leaf (.closing .round), .leaf (.opening .absolute),
   .leaf (.closing .absolute), .leaf .identifier, .leaf .function, .leaf .factorial,
   .leaf .assign, .pointer, .group, .leaf .illegal]

theorem Shape.mem_all (s : Shape) : s ∈ Shape.all := by
  cases s with
  | leaf kind =>
    cases kind with
    | operator op => cases op <;> decide
    | opening b => cases b <;> decide
    | closing b => cases b <;> decide
    | _ => decide
  | _ => decide

/-- The sort with a given name. -/
def Shape.ofLabel? (name : String) : Option Shape :=
  Shape.all.find? fun s => s.label = name

/-- The family with a given name. -/
def Bracket.ofLabel? (name : String) : Option Bracket :=
  [Bracket.round, .absolute].find? fun b => b.label = name

theorem Shape.ofLabel?_label (s : Shape) : Shape.ofLabel? s.label = some s := by
  cases s with
  | leaf kind =>
    cases kind with
    | operator op => cases op <;> decide
    | opening b => cases b <;> decide
    | closing b => cases b <;> decide
    | _ => decide
  | _ => decide

theorem Shape.label_injective {s t : Shape} (h : s.label = t.label) : s = t := by
  have := Shape.ofLabel?_label s
  rw [h, Shape.ofLabel?_label t] at this
  exact (Option.some.inj this).symm

end Calculator
