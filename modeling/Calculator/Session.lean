import Calculator.Command
import Calculator.Trace

/-!
# Sessions

The calculator with the limits that it has at a terminal. Nothing else is decided
here: what is said of calculations holds for any limits.
-/

namespace Calculator

/-- About as deep as a thousand calls inside one another go. Reading and writing take one
for each bracket; evaluating takes one for an assignment and three for a group, and its
limit stands in between. -/
def Limits.standard : Limits := ⟨980, 590, 980⟩

/-- One level of an outline with its pointers resolved. -/
def Outline.resolveLevel (o : Outline) (level : Nat) : Except Fault (List Token) :=
  o.resolveLevelWithin Limits.standard.reading level

/-- The tree of a text. -/
def parse (code : String) : Except Fault (List Token) := parseWithin Limits.standard.reading code

/-- The outcome of the contents of a group. -/
def evaluate (bracket : Bracket) (tokens : List Token) (env : Environment) : Outcome :=
  (evaluateWithin Limits.standard.evaluating bracket tokens).outcome env

/-- The outcome of a text. -/
def calculate (code : String) (env : Environment) : Outcome :=
  calculateWithin .standard code env

/-- The events of a calculation and its outcome. -/
def trace (code : String) (env : Environment) : List Event × Outcome :=
  traceWithin .standard code env

/-- The reply to a command; none ends the session. -/
def Command.reply (env : Environment) (command : Command) : Option Reply :=
  command.replyWithin .standard env

/-- Everything printed in a session from an environment on. -/
def transcript (env : Environment) (lines : List String) : String :=
  transcriptWithin .standard env lines

end Calculator
