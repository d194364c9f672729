import Calculator.Token.Scan
import Calculator.Outline
import Calculator.Grouping

/-!
# Trees

The tree of a text: brackets become groups, and within each the operators are
grouped by precedence.

* `resolve`: a list of tokens with its bracketed groups resolved.
* `parseWithin`: the tree of a text, a list of tokens at its top.

Both take a limit on the depth: a group inside a group needs one more step, and so
does a power on the right of a power.
-/

namespace Calculator

/-- Grouping by precedence, unless a chain of powers is too long. -/
def combineWithin (limit : Nat) (tokens : List Token) : Except Fault (List Token) :=
  if powersWithin limit tokens then .ok (combine tokens) else .error .tooDeep

/-- The family of a group, told by the text of its opening bracket. -/
def Bracket.ofLexeme (lexeme : String) : Bracket :=
  if lexeme = "[" then .absolute else .round

namespace Outline

/-- The group that a pointer stands for; `resolveInner` resolves a level that has
brackets of its own. Other tokens stay. -/
def fill (o : Outline) (limit : Nat) (resolveInner : List Token → Except Fault (List Token)) :
    Token → Except Fault Token
  | .pointer level lexeme span =>
      match o.levels[level]? with
      | none => .ok (.pointer level lexeme span)
      | some inside => do
          let tokens ← if inside.nested then resolveInner inside.tokens else .ok inside.tokens
          let combined ← combineWithin limit tokens
          return .group (.ofLexeme lexeme) combined span
  | t => .ok t

end Outline

/-- A list of tokens with every outermost bracketed group in one token. -/
def resolve : Nat → List Token → Except Fault (List Token)
  | 0, _ => .error .tooDeep
  | limit + 1, tokens => do
      let o ← Outline.ofTokens tokens
      o.top.mapM (o.fill limit (resolve limit))

/-- One level of an outline with its pointers resolved; an outline has no more
levels than it has groups. -/
def Outline.resolveLevelWithin (o : Outline) (limit level : Nat) : Except Fault (List Token) :=
  match o.levels[level]? with
  | none => .ok []
  | some l => l.tokens.mapM (o.fill limit (resolve limit))

/-- The tree of a text, with a limit on its depth. -/
def parseWithin (limit : Nat) (code : String) : Except Fault (List Token) := do
  let tokens ← scan code
  let resolved ← resolve limit tokens
  combineWithin limit resolved

end Calculator
