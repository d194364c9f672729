import Calculator.Decimal.Reader
import Calculator.Environment
import Calculator.Factorial
import Calculator.Tree

/-!
# Evaluation

The value of a tree. Operators are applied from left to right, whatever they are:
precedence is in the grouping. A fault stops the evaluation, and the assignments
made before it stay.

* `Memory`: the environment and a journal of the assignments.
* `Evaluation.bind_apply`: what a fault does to the computations after it.
* `operandValue`, `callValue`: the value of one operand.
* `steps`: operators and operands in turn.
* `bodyValue`: the contents of a group, an assignment, a factorial or a sum.
* `evaluateWithin`: a group, with a limit on how many may be inside one another.
* `Evaluation.outcome`: what an evaluation leaves of an environment.
* `Limits`, `calculateWithin`: the outcome of a text, for any limits on its depth.
-/

namespace Calculator

/-! ## What evaluation works on -/

structure Memory where
  environment : Environment
  /-- The completed assignments, in order. -/
  journal : List (String × Float)

/-- The variable gets the value, which is noted. -/
def Memory.assign (name : String) (value : Float) (m : Memory) : Memory :=
  ⟨m.environment.set name value, m.journal ++ [(name, value)]⟩

/-- A computation that changes the memory and may end in a fault. -/
abbrev Evaluation := ExceptT Fault (StateM Memory)

/-- Two computations in a row: a fault of the first ends both, and keeps what the
first did to the memory. -/
theorem Evaluation.bind_apply {α β : Type} (e : Evaluation α) (next : α → Evaluation β)
    (m : Memory) :
    (e >>= next) m =
      match e m with
      | (.ok a, m') => next a m'
      | (.error fault, m') => (.error fault, m') := by
  change (StateT.bind e (ExceptT.bindCont next)) m = _
  unfold StateT.bind
  change (match e m with | (r, m') => ExceptT.bindCont next r m') = _
  rcases e m with ⟨_ | _, _⟩ <;> rfl

section

variable {α β : Type} {e : Evaluation α} {next : α → Evaluation β} {m m' m'' : Memory}

theorem Evaluation.bind_of_ok {a : α} (h : e m = (.ok a, m')) : (e >>= next) m = next a m' := by
  rw [bind_apply, h]

/-- Two computations in a row have a value only if both have. -/
theorem Evaluation.ok_of_bind {b : β} (h : (e >>= next) m = (.ok b, m'')) :
    ∃ a m', e m = (.ok a, m') ∧ next a m' = (.ok b, m'') := by
  rw [bind_apply] at h
  rcases first : e m with ⟨fault | a, m'⟩
  · rw [first] at h
    cases h
  · rw [first] at h
    exact ⟨a, m', rfl, h⟩

end

/-- How groups inside the present one are evaluated. -/
abbrev GroupValue := Bracket → List Token → Evaluation Float

/-! ## Operators -/

/-- What the bracket around a value does to it. -/
def Bracket.apply : Bracket → Float → Float
  | .round, x => x
  | .absolute, x => x.abs

/-- The result of an operator. `x % y` takes `x` percent of `y`. -/
def Operator.result : Operator → Float → Float → Float
  | .plus, x, y => x + y
  | .minus, x, y => x - y
  | .times, x, y => x * y
  | .divide, x, y => x / y
  | .percent, x, y => x / 100.0 * y
  | .power, x, y => x.pow y

/-- The result of an operator whose right operand stands at `position`. -/
def Operator.apply (op : Operator) (x y : Float) (position : Option Int) : Evaluation Float :=
  if op = .divide ∧ y == 0.0 then throw ⟨.divisionByZero, position⟩
  else return op.result x y

/-- The operator that a token is. -/
def Token.operator (t : Token) : Evaluation Operator :=
  match t with
  | .leaf (.operator op) _ _ => return op
  | .leaf .illegal lexeme _ => throw ⟨.illegalCharacter lexeme, t.position?⟩
  | _ => throw ⟨.noOperator, t.position?⟩

/-! ## Operands -/

/-- The value of an operand that is one token. -/
def operandValue (group : GroupValue) (t : Token) : Evaluation Float :=
  match t with
  | .leaf .number lexeme _ =>
      match Decimal.read? lexeme with
      | some x => return x
      | none => throw ⟨.unreadableNumber lexeme, t.position?⟩
  | .leaf .identifier name _ => do
      match (← get).environment.get? name with
      | some x => return x
      | none => throw ⟨.unboundName name, t.position?⟩
  | .group bracket tokens _ => group bracket tokens
  | .leaf .function lexeme _ => throw ⟨.noArgument lexeme, t.after?⟩
  | .leaf .illegal lexeme _ => throw ⟨.illegalCharacter lexeme, t.position?⟩
  | _ => throw ⟨.noOperand t.shape, t.position?⟩

/-- The value of a function for the argument beside it. -/
def callValue (group : GroupValue) (word : String) (span : Span) (argument : Token) :
    Evaluation Float :=
  let t := Token.leaf .function word span
  if argument.isOperand then do
    let x ← operandValue group argument
    match Function.called? word with
    | none => throw ⟨.unboundName word, t.position?⟩
    | some f =>
        match f.apply x with
        | some y => return y
        | none => throw ⟨.outsideDomain f x, t.position?⟩
  else throw ⟨.noArgument word, t.after?⟩

/-- The factorial of a value; the mark after it stands at `position`. -/
def factorialValue (x : Float) (position : Option Int) : Evaluation Float :=
  match factorial x with
  | .ok y => return y
  | .error cause => throw ⟨cause, position⟩

/-! ## Lists -/

/-- Applies operators and their right operands to `x`, one after the other. -/
def steps (group : GroupValue) (x : Float) : List Token → Evaluation Float
  | [] => return x
  | [slot] => throw ⟨.incomplete, slot.after?⟩
  | slot :: .leaf .function word span :: argument :: rest => do
      let op ← slot.operator
      let y ← callValue group word span argument
      steps group (← op.apply x y (Token.leaf .function word span).position?) rest
  | slot :: t :: rest => do
      let op ← slot.operator
      let y ← operandValue group t
      steps group (← op.apply x y t.position?) rest

/-- A sum of products of operands without precedence. A sign in front is applied
to zero. -/
def sumValue (group : GroupValue) : List Token → Evaluation Float
  | [] => throw ⟨.nothingToEvaluate, none⟩
  | .leaf .function word span :: argument :: rest => do
      steps group (← callValue group word span argument) rest
  | t :: rest => do
      if t.isSign then steps group 0.0 (t :: rest)
      else steps group (← operandValue group t) rest

/-- The value of the contents of a group. An assigned value is that of the list
after the assignment mark, evaluated as a group of its own. -/
def bodyValue (group : GroupValue) : List Token → Evaluation Float
  | .leaf .identifier name _ :: .leaf .assign _ _ :: t :: rest => do
      let x ← group .round (t :: rest)
      modify (·.assign name x)
      return x
  | [t, .leaf .factorial lexeme span] => do
      let x ← operandValue group t
      factorialValue x (Token.leaf .factorial lexeme span).position?
  | tokens => sumValue group tokens

/-- The value of a group, with a limit on how many are inside one another. -/
def evaluateWithin : Nat → GroupValue
  | 0, _, _ => throw .tooDeep
  | limit + 1, bracket, tokens => do
      let x ← bodyValue (evaluateWithin limit) tokens
      return bracket.apply x

/-! ## Outcomes -/

/-- What an evaluation leaves. -/
structure Outcome where
  result : Except Fault Float
  memory : Memory

def Outcome.environment (o : Outcome) : Environment := o.memory.environment

/-- Runs an evaluation from an environment, with an empty journal. -/
def Evaluation.outcome (e : Evaluation Float) (env : Environment) : Outcome :=
  let (result, memory) := e.run.run ⟨env, []⟩
  ⟨result, memory⟩

theorem Evaluation.outcome_eq (e : Evaluation Float) (env : Environment) :
    e.outcome env = ⟨(e ⟨env, []⟩).1, (e ⟨env, []⟩).2⟩ := rfl

/-- How deep a calculation may go. -/
structure Limits where
  /-- For brackets and chains of powers in a text. -/
  reading : Nat
  /-- For groups and assignments inside one another in evaluating. -/
  evaluating : Nat
  /-- For a tree that is written out. -/
  writing : Nat
  deriving DecidableEq, Repr

/-- The outcome of a text. -/
def calculateWithin (limits : Limits) (code : String) (env : Environment) : Outcome :=
  match parseWithin limits.reading code with
  | .ok tokens => (evaluateWithin limits.evaluating .round tokens).outcome env
  | .error fault => ⟨.error fault, ⟨env, []⟩⟩

end Calculator
