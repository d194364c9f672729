import Calculator.Evaluation

/-!
# The grammar of calculations

The lists of words that can be evaluated, as derivations of a grammar, each with
its value by direct recursion. Precedence is in the shape of a derivation, so
nothing here groups, wraps or rearranges.

* `Phrase`: the derivations, each of a `Rank` of precedence.
* `Phrase.tokens`: the words of a derivation from left to right.
* `Phrase.value`: its value, operands from left to right.
* `Phrase.height`: how many groups and assignments stand inside one another.
-/

namespace Calculator

/-! ## Words -/

/-- A word without its kind. -/
structure Word where
  lexeme : String
  span : Span
  deriving DecidableEq, Repr

def Word.token (w : Word) (kind : Kind) : Token := .leaf kind w.lexeme w.span

/-- The text of the bracket that opens a group. -/
def Bracket.opener : Bracket → String
  | .round => "("
  | .absolute => "["

def Bracket.closer : Bracket → String
  | .round => ")"
  | .absolute => "]"

/-- Where a span starts, unless it is the unknown one. -/
def Span.position? (s : Span) : Option Int := if s.isKnown then some s.start else none

/-! ## Derivations -/

/-- The ranks of precedence, from the strongest binding on. The flags tell
whether the first and the last item of a phrase may be a bare name, which never
multiplies its neighbour without an operator. -/
inductive Rank where
  | quantity
  | operand (bare : Bool)
  | power (first last : Bool)
  | product (last : Bool)
  | sum (last : Bool)
  | level
  deriving DecidableEq, Repr

/-- The derivations of the grammar

* `level := IDENTIFIER '=' level | sum`
* `sum := [sign] product (sign product)*`
* `product := power (operator power | power)*`, without an operator only between
  items that are no bare names
* `power := operand ['^' power]`
* `operand := (quantity | IDENTIFIER | FUNCTION quantity) '!'*`
* `quantity := NUMBER | '(' level ')' | '[' level ']'` -/
inductive Phrase : Rank → Type where
  | number (w : Word) : Phrase .quantity
  | bracket (family : Bracket) (opening closing : Span) (inside : Phrase .level) :
      Phrase .quantity
  | quantity (q : Phrase .quantity) : Phrase (.operand false)
  | name (w : Word) : Phrase (.operand true)
  | call (word : Word) (f : Function) (known : Function.called? word.lexeme = some f)
      (argument : Phrase .quantity) : Phrase (.operand false)
  | factorial {bare : Bool} (operand : Phrase (.operand bare)) (mark : Word) :
      Phrase (.operand false)
  | item {bare : Bool} (operand : Phrase (.operand bare)) : Phrase (.power bare bare)
  | raised {bare first last : Bool} (base : Phrase (.operand bare)) (mark : Word)
      (exponent : Phrase (.power first last)) : Phrase (.power bare last)
  | power {first last : Bool} (p : Phrase (.power first last)) : Phrase (.product last)
  | times {before first last : Bool} (left : Phrase (.product before)) (op : Operator)
      (known : op.isProduct = true) (mark : Word) (right : Phrase (.power first last)) :
      Phrase (.product last)
  | beside {last : Bool} (left : Phrase (.product false)) (right : Phrase (.power false last)) :
      Phrase (.product last)
  | product {last : Bool} (p : Phrase (.product last)) : Phrase (.sum last)
  | signed {last : Bool} (op : Operator) (known : op.isSign = true) (mark : Word)
      (p : Phrase (.product last)) : Phrase (.sum last)
  | plus {before last : Bool} (left : Phrase (.sum before)) (op : Operator)
      (known : op.isSign = true) (mark : Word) (right : Phrase (.product last)) :
      Phrase (.sum last)
  | sum {last : Bool} (s : Phrase (.sum last)) : Phrase .level
  | assigned (target mark : Word) (assigned : Phrase .level) : Phrase .level

namespace Phrase

/-- The words of a derivation, from left to right. -/
def tokens {r : Rank} : Phrase r → List Token
  | number w => [w.token .number]
  | bracket family opening closing inside =>
      .leaf (.opening family) family.opener opening ::
        (inside.tokens ++ [.leaf (.closing family) family.closer closing])
  | quantity q => q.tokens
  | name w => [w.token .identifier]
  | call word _ _ argument => word.token .identifier :: argument.tokens
  | factorial operand mark => operand.tokens ++ [mark.token .factorial]
  | item operand => operand.tokens
  | raised base mark exponent => base.tokens ++ mark.token (.operator .power) :: exponent.tokens
  | power p => p.tokens
  | times left op _ mark right => left.tokens ++ mark.token (.operator op) :: right.tokens
  | beside left right => left.tokens ++ right.tokens
  | product p => p.tokens
  | signed op _ mark p => mark.token (.operator op) :: p.tokens
  | plus left op _ mark right => left.tokens ++ mark.token (.operator op) :: right.tokens
  | sum s => s.tokens
  | assigned target mark value =>
      target.token .identifier :: mark.token .assign :: value.tokens

/-- The least span around a derivation. -/
def place {r : Rank} : Phrase r → Span
  | number w | name w => w.span
  | bracket _ opening closing _ => ⟨opening.start, closing.stop⟩
  | quantity q => q.place
  | call word _ _ argument => .enclosing [word.span, argument.place]
  | factorial operand mark => .enclosing [operand.place, mark.span]
  | item operand => operand.place
  | raised base mark exponent => .enclosing [base.place, mark.span, exponent.place]
  | power p => p.place
  | times left _ _ mark right => .enclosing [left.place, mark.span, right.place]
  | beside left right => .enclosing [left.place, right.place]
  | product p => p.place
  | signed _ _ mark p => .enclosing [mark.span, p.place]
  | plus left _ _ mark right => .enclosing [left.place, mark.span, right.place]
  | sum s => s.place
  | assigned target mark value => .enclosing [target.span, mark.span, value.place]

/-- The value of a derivation. A sign in front is applied to zero, and a division
by zero is blamed on the divisor. -/
def value {r : Rank} : Phrase r → Evaluation Float
  | number w =>
      match Decimal.read? w.lexeme with
      | some x => return x
      | none => throw ⟨.unreadableNumber w.lexeme, w.span.position?⟩
  | bracket family _ _ inside => do
      let x ← inside.value
      return family.apply x
  | quantity q => q.value
  | name w => do
      match (← get).environment.get? w.lexeme with
      | some x => return x
      | none => throw ⟨.unboundName w.lexeme, w.span.position?⟩
  | call word f _ argument => do
      let x ← argument.value
      match f.apply x with
      | some y => return y
      | none => throw ⟨.outsideDomain f x, word.span.position?⟩
  | factorial operand mark => do
      let x ← operand.value
      match Calculator.factorial x with
      | .ok y => return y
      | .error cause => throw ⟨cause, mark.span.position?⟩
  | item operand => operand.value
  | raised base _ exponent => do
      let x ← base.value
      let y ← exponent.value
      return x.pow y
  | power p => p.value
  | times left op _ _ right => do
      let x ← left.value
      let y ← right.value
      if op = .divide ∧ y == 0.0 then throw ⟨.divisionByZero, right.place.position?⟩
      else return op.result x y
  | beside left right => do
      let x ← left.value
      let y ← right.value
      return x * y
  | product p => p.value
  | signed op _ _ p => do
      let y ← p.value
      return op.result 0.0 y
  | plus left op _ _ right => do
      let x ← left.value
      let y ← right.value
      return op.result x y
  | sum s => s.value
  | assigned target _ value => do
      let x ← value.value
      modify (·.assign target.lexeme x)
      return x

/-- How many groups and assignments stand inside one another when the derivation
is evaluated, a chain of operators counted as a group. -/
def height {r : Rank} : Phrase r → Nat
  | number _ | name _ => 0
  | bracket _ _ _ inside => inside.height + 1
  | quantity q => q.height
  | call _ _ _ argument => argument.height + 1
  | factorial operand _ => operand.height + 1
  | item operand => operand.height
  | raised base _ exponent => max base.height exponent.height + 1
  | power p => p.height + 1
  | times left _ _ _ right => max left.height (right.height + 1)
  | beside left right => max left.height (right.height + 1)
  | product p => p.height
  | signed _ _ _ p => p.height
  | plus left _ _ _ right => max left.height right.height
  | sum s => s.height
  | assigned _ _ value => value.height + 1

end Phrase

end Calculator
