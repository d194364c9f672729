/-!
# Tokens

The words of a calculation and what they are grouped into.

* `Span`: the place of a token in the text, or `Span.unknown`.
* `Token`: a leaf of some `Kind`, a pointer to a group kept elsewhere, or a
  group of tokens.
* `Token.isOperand`, `Token.isQuantity`: what can stand for a value.
* `spanning`: the least span around the tokens of a list.
-/

namespace Calculator

/-! ## Places in the text -/

/-- The first and the last character of a stretch of the text, counted from zero. -/
structure Span where
  start : Int
  stop : Int
  deriving DecidableEq, Repr

namespace Span

/-- The span of a token that does not stand in the text. -/
def unknown : Span := ⟨-1, -1⟩

def isKnown (s : Span) : Bool := s ≠ unknown

/-- The least span around two spans. -/
def join (s t : Span) : Span := ⟨min s.start t.start, max s.stop t.stop⟩

/-- The least span around the known ones of a list. -/
def enclosing (spans : List Span) : Span :=
  match spans.filter isKnown with
  | [] => unknown
  | first :: rest => rest.foldl join first

end Span

/-! ## Kinds of tokens -/

/-- The two families of brackets: round ones group, square ones take the
absolute value of what they group. -/
inductive Bracket where
  | round
  | absolute
  deriving DecidableEq, Repr

inductive Operator where
  | plus
  | minus
  | times
  | divide
  | percent
  | power
  deriving DecidableEq, Repr

/-- A plus or a minus, which may also stand in front of a sum. -/
def Operator.isSign : Operator → Bool
  | .plus | .minus => true
  | _ => false

/-- Products, quotients and percentages bind equally. -/
def Operator.isProduct : Operator → Bool
  | .times | .divide | .percent => true
  | _ => false

/-- What a single word of the text is. -/
inductive Kind where
  | number
  | operator (op : Operator)
  | opening (bracket : Bracket)
  | closing (bracket : Bracket)
  | identifier
  /-- An identifier that has been found to name a function in a call. -/
  | function
  | factorial
  | assign
  /-- A character that means nothing. -/
  | illegal
  deriving DecidableEq, Repr

/-! ## Tokens -/

inductive Token where
  /-- A word of the text. -/
  | leaf (kind : Kind) (lexeme : String) (span : Span)
  /-- The place of a bracketed group, told by its number and its opening bracket. -/
  | pointer (level : Nat) (lexeme : String) (span : Span)
  /-- Tokens that stand together for one value. -/
  | group (bracket : Bracket) (tokens : List Token) (span : Span)
  deriving Repr

instance : Inhabited Token := ⟨.group .round [] .unknown⟩

mutual

/-- Whether two tokens are the same, groups compared through and through. -/
def Token.decEq : (s t : Token) → Decidable (s = t)
  | .leaf k l p, .leaf k' l' p' => decidable_of_iff (k = k' ∧ l = l' ∧ p = p') (by simp)
  | .pointer n l p, .pointer n' l' p' => decidable_of_iff (n = n' ∧ l = l' ∧ p = p') (by simp)
  | .group b ts p, .group b' ts' p' =>
      have : Decidable (ts = ts') := decEqAll ts ts'
      decidable_of_iff (b = b' ∧ ts = ts' ∧ p = p') (by simp)
  | .leaf _ _ _, .pointer _ _ _ | .leaf _ _ _, .group _ _ _ | .pointer _ _ _, .leaf _ _ _
  | .pointer _ _ _, .group _ _ _ | .group _ _ _, .leaf _ _ _ | .group _ _ _, .pointer _ _ _ =>
      isFalse (by simp)

/-- Whether two lists of tokens are the same. -/
def decEqAll : (ss ts : List Token) → Decidable (ss = ts)
  | [], [] => isTrue rfl
  | s :: ss, t :: ts =>
      have : Decidable (s = t) := s.decEq t
      have : Decidable (ss = ts) := decEqAll ss ts
      decidable_of_iff (s = t ∧ ss = ts) (by simp)
  | [], _ :: _ | _ :: _, [] => isFalse (by simp)

end

instance : DecidableEq Token := Token.decEq

/-- The sort of a token, for messages and dumps. -/
inductive Shape where
  | leaf (kind : Kind)
  | pointer
  | group
  deriving DecidableEq, Repr

namespace Token

def shape : Token → Shape
  | leaf kind _ _ => .leaf kind
  | pointer _ _ _ => .pointer
  | group _ _ _ => .group

def span : Token → Span
  | leaf _ _ span | pointer _ _ span | group _ _ span => span

/-- The text of a word; a group has none of its own. -/
def lexeme : Token → String
  | leaf _ lexeme _ | pointer _ lexeme _ => lexeme
  | group _ _ _ => ""

/-- A number, a name or a group: an operator may stand beside it. -/
def isOperand : Token → Bool
  | leaf .number _ _ | leaf .identifier _ _ | group _ _ _ => true
  | _ => false

/-- A number or a group: an operand that multiplies its neighbour without an
operator between them, and that a function name may be applied to. -/
def isQuantity : Token → Bool
  | leaf .number _ _ | group _ _ _ => true
  | _ => false

def isFactorial : Token → Bool
  | leaf .factorial _ _ => true
  | _ => false

def isPower : Token → Bool
  | leaf (.operator .power) _ _ => true
  | _ => false

def isProduct : Token → Bool
  | leaf (.operator op) _ _ => op.isProduct
  | _ => false

def isSign : Token → Bool
  | leaf (.operator op) _ _ => op.isSign
  | _ => false

/-- Where the token starts, if it stands in the text. -/
def position? (t : Token) : Option Int :=
  if t.span.isKnown then some t.span.start else none

/-- The place right after the token, if it stands in the text. -/
def after? (t : Token) : Option Int :=
  if t.span.isKnown then some (t.span.stop + 1) else none

end Token

/-- The least span around the tokens that stand in the text. -/
def spanning (tokens : List Token) : Span := Span.enclosing (tokens.map Token.span)

/-- Tokens put together without brackets of their own in the text. -/
def Token.grouping (tokens : List Token) : Token := .group .round tokens (spanning tokens)

theorem Token.isOperand_of_isQuantity {t : Token} (h : t.isQuantity = true) :
    t.isOperand = true := by
  unfold isQuantity at h
  unfold isOperand
  split at h <;> simp_all

end Calculator
