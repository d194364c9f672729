import Calculator.Evaluation
import Calculator.Token.Text
import Calculator.Diagnostic

/-!
# Commands

A conversation with the calculator, line by line, over one environment.

* `Command.ofLine`: what a line asks for.
* `Command.replyWithin`: what is printed for it and the environment it leaves.
* `transcriptWithin`: everything printed in a conversation. Each line is read after
  a prompt; the conversation ends with a line that asks for it or with the input.
-/

namespace Calculator

/-! ## Commands -/

inductive Command where
  | blank
  | quit
  /-- Print all variables. -/
  | bindings
  /-- Forget all variables. -/
  | clear
  /-- Print the tree of a text. -/
  | tokens (code : String)
  | expression (code : String)
  deriving DecidableEq, Repr

/-- The word in front of a text whose tree is asked for. -/
def tokensWord : List Char := "tokens ".toList

/-- What a line asks for; the blanks around it do not count. -/
def Command.ofLine (line : String) : Command :=
  let code := Text.trim line
  if code = "" then .blank
  else if code = "quit" ∨ code = "exit" then .quit
  else if code = "vars" then .bindings
  else if code = "clear" then .clear
  else if tokensWord.isPrefixOf code.toList then
    .tokens (String.ofList (code.toList.drop tokensWord.length))
  else .expression code

/-! ## Replies -/

/-- What is printed after a line, and the environment from then on. -/
structure Reply where
  output : String
  environment : Environment

/-- The value or the message of a result. -/
def resultText (code : String) : Except Fault Float → String
  | .ok value => Decimal.text value
  | .error fault => fault.describe code

/-- The tree of a text line by line, or what is wrong with the text. -/
def treeTextWithin (limits : Limits) (code : String) : String :=
  match parseWithin limits.reading code with
  | .error fault => fault.describe code
  | .ok tree =>
      if depthAll tree ≤ limits.writing then dump tree 0 else Fault.tooDeep.describe code

/-- The bindings by ascending name, one on a line. -/
def Environment.listing (env : Environment) : String :=
  let sorted := env.bindings.mergeSort fun a b => decide (a.1 ≤ b.1)
  String.join (sorted.map fun b => b.1 ++ " = " ++ Decimal.text b.2 ++ "\n")

/-- The reply to a command; none ends the conversation. -/
def Command.replyWithin (limits : Limits) (env : Environment) : Command → Option Reply
  | blank => some ⟨"", env⟩
  | quit => none
  | bindings => some ⟨env.listing, env⟩
  | clear => some ⟨"", .empty⟩
  | tokens code => some ⟨treeTextWithin limits code ++ "\n", env⟩
  | expression code =>
      let outcome := calculateWithin limits code env
      some ⟨resultText code outcome.result ++ "\n", outcome.environment⟩

/-! ## Transcripts -/

def prompt : String := "> "

/-- Everything printed from an environment on. The end of the input ends the
line of the last prompt. -/
def transcriptWithin (limits : Limits) (env : Environment) : List String → String
  | [] => prompt ++ "\n"
  | line :: rest =>
      match (Command.ofLine line).replyWithin limits env with
      | none => prompt
      | some reply => prompt ++ reply.output ++ transcriptWithin limits reply.environment rest

end Calculator
