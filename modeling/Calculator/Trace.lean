import Calculator.Evaluation
import Calculator.Token.Text

/-!
# Traces

What happens in a calculation, step by step.

* `Event`: one thing that happened, with the stage it belongs to and a message.
* `outlinesWithin`: the outlines made while a list of tokens is resolved, an
  outer one before the inner ones.
* `traceWithin`: the events of a calculation and its outcome. Nothing is noted of a
  text that is refused before it is cut into words.
* `traceWithin_outcome`: the outcome is that of the calculation.
-/

namespace Calculator

/-! ## Events -/

inductive Stage where
  | scanning
  | nesting
  | parsing
  | evaluating
  deriving DecidableEq, Repr

inductive Event where
  | scanned (tokens : List Token)
  /-- One level of an outline. -/
  | outlined (number : Nat) (level : Level)
  | parsed (code : String) (tree : List Token)
  | assigned (name : String) (value : Float)
  | evaluated (code : String) (value : Float)

namespace Event

def stage : Event → Stage
  | scanned _ => .scanning
  | outlined _ _ => .nesting
  | parsed _ _ => .parsing
  | assigned _ _ | evaluated _ _ => .evaluating

def message : Event → String
  | scanned tokens => "Scanned " ++ toString tokens.length ++ " tokens: " ++ taggedText tokens
  | outlined number level =>
      "Level " ++ toString number ++ (if level.nested then " (renest)" else "") ++ ": " ++
        taggedText level.tokens
  | parsed code tree => "Lexed " ++ Text.quote code ++ " as " ++ sourceText tree
  | assigned name value => "Assigned " ++ name ++ " = " ++ Decimal.text value
  | evaluated code value => Text.quote code ++ " evaluated to " ++ Decimal.text value

end Event

/-! ## Outlines in order -/

/-- The outlines made inside the groups of an outline, up to the first group that
cannot be resolved. -/
def visitGroups (inside : List Token → List Outline) (resolves : Level → Bool) :
    List Level → List Outline
  | [] => []
  | [l] => if l.nested then inside l.tokens else []
  | l :: rest =>
      (if l.nested then inside l.tokens else []) ++
        if resolves l then visitGroups inside resolves rest else []

/-- Whether the contents of a group can be resolved and grouped. -/
def Level.resolvesWithin (limit : Nat) (l : Level) : Bool :=
  let resolved := if l.nested then resolve limit l.tokens else .ok l.tokens
  (resolved.bind (combineWithin limit)).toBool

/-- The outlines made while a list of tokens is resolved. -/
def outlinesWithin : Nat → List Token → List Outline
  | 0, _ => []
  | limit + 1, tokens =>
      match Outline.ofTokens tokens with
      | .error _ => []
      | .ok o => o :: visitGroups (outlinesWithin limit) (Level.resolvesWithin limit) o.groups

/-- The levels of an outline, in ascending order. -/
def Outline.events (o : Outline) : List Event :=
  o.levels.zipIdx.map fun (level, number) => .outlined number level

/-! ## Calculations -/

/-- The events of evaluating a tree and its outcome. -/
def traceEvaluationWithin (limit : Nat) (code : String) (tree : List Token)
    (env : Environment) : List Event × Outcome :=
  let outcome := (evaluateWithin limit .round tree).outcome env
  let assignments := outcome.memory.journal.map fun b => Event.assigned b.1 b.2
  let conclusion :=
    match outcome.result with
    | .ok value => [Event.evaluated code value]
    | .error _ => []
  (assignments ++ conclusion, outcome)

/-- The events of a calculation and its outcome. A tree that is too deep to be
written out is refused here. -/
def traceWithin (limits : Limits) (code : String) (env : Environment) : List Event × Outcome :=
  let refused (fault : Fault) : Outcome := ⟨.error fault, ⟨env, []⟩⟩
  match scan code with
  | .error fault => ([], refused fault)
  | .ok tokens =>
      let reading :=
        Event.scanned tokens :: (outlinesWithin limits.reading tokens).flatMap Outline.events
      match parseWithin limits.reading code with
      | .error fault => (reading, refused fault)
      | .ok tree =>
          if limits.writing < depthAll tree then (reading, refused .tooDeep)
          else
            let (events, outcome) := traceEvaluationWithin limits.evaluating code tree env
            (reading ++ Event.parsed code tree :: events, outcome)

/-- Tracing changes nothing, but for trees that are too deep to be written out. -/
theorem traceWithin_outcome (limits : Limits) (code : String) (env : Environment)
    (h : ∀ tree, parseWithin limits.reading code = .ok tree → depthAll tree ≤ limits.writing) :
    (traceWithin limits code env).2 = calculateWithin limits code env := by
  unfold traceWithin calculateWithin
  cases hs : scan code with
  | error fault =>
    have : parseWithin limits.reading code = .error fault := by
      unfold parseWithin
      rw [hs]
      rfl
    rw [this]
  | ok tokens =>
    cases hp : parseWithin limits.reading code with
    | error fault => rfl
    | ok tree =>
      have : ¬ limits.writing < depthAll tree := Nat.not_lt.2 (h tree hp)
      simp only [this, if_false]
      rfl

end Calculator
