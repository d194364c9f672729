import Calculator.Fault

/-!
# Outlines

The outline of a token list keeps what stands outside all brackets and puts a
pointer in the place of every outermost bracketed group.

* `enclose`: the tokens up to the bracket that closes a group. Brackets of both
  families have to be closed in the opposite order of their opening.
* `Outline.ofTokens`: the outline of a list, or the first bracket that does not
  fit.
* `groupAt`: the group that begins at a given token.
-/

namespace Calculator

/-! ## One group -/

/-- An open bracket that waits for its partner. -/
structure Opening where
  bracket : Bracket
  lexeme : String
  span : Span
  deriving DecidableEq, Repr

/-- What stands between two brackets that belong together. -/
structure Enclosed where
  tokens : List Token
  /-- Whether there are brackets among the tokens. -/
  nested : Bool
  /-- The place of the closing bracket. -/
  closing : Span
  deriving DecidableEq, Repr

/-- One more token in front of those enclosed. -/
def Enclosed.cons (t : Token) (e : Enclosed) : Enclosed := { e with tokens := t :: e.tokens }

/-- The tokens up to the bracket that closes the outermost of the open brackets,
which are `inner` and around it `outer`, innermost first. -/
def enclose (inner : Opening) (outer : List Opening) : List Token → Except Fault Enclosed
  | [] => .error ⟨.unclosedBracket inner.lexeme, some inner.span.start⟩
  | t :: rest =>
      match t with
      | .leaf (.opening bracket) lexeme span =>
          (enclose ⟨bracket, lexeme, span⟩ (inner :: outer) rest).map fun e =>
            { e.cons t with nested := true }
      | .leaf (.closing bracket) lexeme span =>
          if bracket ≠ inner.bracket then
            .error ⟨.wrongBracket lexeme inner.lexeme, some span.start⟩
          else
            match outer with
            | [] => .ok ⟨[], false, span⟩
            | next :: outer => (enclose next outer rest).map (·.cons t)
      | _ => (enclose inner outer rest).map (·.cons t)

/-! ## Outlines -/

/-- The tokens of a level, and whether there are brackets among them. -/
structure Level where
  tokens : List Token
  nested : Bool
  deriving DecidableEq, Repr

/-- Level zero holds what stands outside all brackets, with a pointer for each
outermost group; the groups are the levels from one on, in order. -/
structure Outline where
  top : List Token
  groups : List Level
  deriving DecidableEq, Repr

namespace Outline

/-- All levels, in ascending order. -/
def levels (o : Outline) : List Level := ⟨o.top, false⟩ :: o.groups

/-- The outline of a list, with pointers to the levels after `level`. -/
def ofTokensFrom (level : Nat) : List Token → Except Fault Outline
  | [] => .ok ⟨[], []⟩
  | t :: rest =>
      match t with
      | .leaf (.opening bracket) lexeme span => do
          let e ← enclose ⟨bracket, lexeme, span⟩ [] rest
          let o ← ofTokensFrom (level + 1) (rest.drop (e.tokens.length + 1))
          return ⟨.pointer (level + 1) lexeme ⟨span.start, e.closing.stop⟩ :: o.top,
            ⟨e.tokens, e.nested⟩ :: o.groups⟩
      | .leaf (.closing _) lexeme span => .error ⟨.unexpectedBracket lexeme, some span.start⟩
      | _ => (ofTokensFrom level rest).map fun o => { o with top := t :: o.top }
termination_by tokens => tokens.length
decreasing_by
  · simp only [List.length_drop, List.length_cons]; omega
  · exact Nat.lt_succ_self _

/-- The outline of a list. -/
def ofTokens (tokens : List Token) : Except Fault Outline := ofTokensFrom 0 tokens

end Outline

/-! ## The group at a token -/

/-- What the bracket at index `start` encloses, and the index of the bracket that
closes it. -/
def groupAt (tokens : List Token) (start : Nat) : Except Fault (Enclosed × Nat) :=
  match tokens.drop start with
  | .leaf (.opening bracket) lexeme span :: rest =>
      (enclose ⟨bracket, lexeme, span⟩ [] rest).map fun e => (e, start + e.tokens.length + 1)
  | t :: _ => .error ⟨.noBracket t.lexeme, some t.span.start⟩
  | [] => .error ⟨.noBracket "", none⟩

end Calculator
