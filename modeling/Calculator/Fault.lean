import Calculator.Token.Label
import Calculator.Function
import Calculator.Text.Quoted
import Calculator.Decimal.Shortest
import Calculator.Decimal.Significant

/-!
# What can go wrong

* `Cause`: everything that can be wrong with a calculation.
* `Category`: the classes of causes, each with a heading; some have a message
  of their own.
* `Fault`: a cause with its place in the text.
-/

namespace Calculator

/-! ## Categories -/

inductive Category where
  /-- Any fault. -/
  | calculation
  /-- Any fault in reading the text. -/
  | lexical
  /-- Any fault in evaluating it. -/
  | evaluation
  | emptyInput
  | mismatchedBrackets
  | tooDeep
  | nothingToEvaluate
  | illegalCharacter
  | unreadableNumber
  | invalidOrder
  | incomplete
  | divisionByZero
  | unboundName
  | factorialDomain
  | functionDomain
  deriving DecidableEq, Repr

namespace Category

/-- Depth can be exceeded both in reading and in evaluating. -/
def isLexical : Category → Bool
  | lexical | emptyInput | mismatchedBrackets | tooDeep => true
  | _ => false

def isEvaluation : Category → Bool
  | calculation | lexical | emptyInput | mismatchedBrackets => false
  | _ => true

def heading : Category → String
  | calculation => "Calculator error"
  | lexical | emptyInput | mismatchedBrackets => "Lexer error"
  | tooDeep => "Nesting error"
  | _ => "Evaluation error"

/-- What is said if there is nothing more to say. -/
def message : Category → String
  | emptyInput => "Empty input"
  | mismatchedBrackets => "Mismatched parentheses"
  | tooDeep => "Expression is too deeply nested"
  | nothingToEvaluate => "Nothing to evaluate"
  | invalidOrder => "Operators and operands are in invalid order"
  | incomplete => "Expression ended unexpectedly"
  | divisionByZero => "Division by zero"
  | _ => ""

end Category

/-! ## Causes -/

inductive Cause where
  | emptyInput
  /-- A closing bracket where none is open. -/
  | unexpectedBracket (closing : String)
  /-- A closing bracket of the other family than the innermost open one. -/
  | wrongBracket (closing opening : String)
  | unclosedBracket (opening : String)
  /-- A group was asked for where none begins. -/
  | noBracket (found : String)
  | tooDeep
  | nothingToEvaluate
  | illegalCharacter (character : String)
  | unreadableNumber (literal : String)
  /-- Something else stands where an operand has to be. -/
  | noOperand (found : Shape)
  /-- Something else stands where an operator has to be. -/
  | noOperator
  | incomplete
  | noArgument (function : String)
  | divisionByZero
  | unboundName (name : String)
  | factorialOfNegative (x : Float)
  | factorialOfFraction (x : Float)
  | factorialTooLarge (x : Float)
  | outsideDomain (function : Function) (x : Float)
  deriving DecidableEq, Repr

namespace Cause

open Text (quote)

def category : Cause → Category
  | emptyInput => .emptyInput
  | unexpectedBracket _ | wrongBracket _ _ | unclosedBracket _ | noBracket _ => .mismatchedBrackets
  | tooDeep => .tooDeep
  | nothingToEvaluate => .nothingToEvaluate
  | illegalCharacter _ => .illegalCharacter
  | unreadableNumber _ => .unreadableNumber
  | noOperand _ | noOperator => .invalidOrder
  | incomplete | noArgument _ => .incomplete
  | divisionByZero => .divisionByZero
  | unboundName _ => .unboundName
  | factorialOfNegative _ | factorialOfFraction _ | factorialTooLarge _ => .factorialDomain
  | outsideDomain _ _ => .functionDomain

def message : Cause → String
  | unexpectedBracket closing => "Unexpected " ++ quote closing
  | wrongBracket closing opening => quote closing ++ " does not close " ++ quote opening
  | unclosedBracket opening => "Unclosed " ++ quote opening
  | noBracket found => "Expected an opening bracket, found " ++ quote found
  | illegalCharacter character => "Illegal character " ++ quote character
  | unreadableNumber literal => "Cannot parse " ++ quote literal ++ " as a number"
  | noOperand found => "Operand expected, found " ++ found.label
  | noArgument function => quote function ++ " expects an argument"
  | unboundName name => "Undefined variable " ++ quote name
  | factorialOfNegative x =>
      "Factorial is not defined for negative numbers: " ++ Decimal.text x
  | factorialOfFraction x => "Factorial is only defined for integers: " ++ Decimal.text x
  | factorialTooLarge x => "Factorial of " ++ Decimal.briefText x ++ " is too large to compute"
  | outsideDomain function x =>
      quote function.name ++ " is not defined for " ++ Decimal.text x
  | cause => cause.category.message

end Cause

/-! ## Faults -/

/-- A cause and the place of the character to blame, if there is one. -/
structure Fault where
  cause : Cause
  position : Option Int
  deriving DecidableEq, Repr

/-- Two results are the same if both are values or both faults, and the same. -/
instance decEqResult {ε α : Type} [DecidableEq ε] [DecidableEq α] : DecidableEq (Except ε α)
  | .ok a, .ok b => decidable_of_iff (a = b) (by simp)
  | .error e, .error f => decidable_of_iff (e = f) (by simp)
  | .ok _, .error _ | .error _, .ok _ => isFalse (by simp)

/-- Too deep a nesting is nobody's fault in particular. -/
def Fault.tooDeep : Fault := ⟨.tooDeep, none⟩

end Calculator
