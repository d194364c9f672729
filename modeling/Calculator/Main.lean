import Calculator.Session
import Calculator.Verbosity

/-!
# The calculator at a terminal

Reads lines from standard input and answers each as `Command.reply` says. The
variable `ABACUS_LOG_LEVEL` sets how much is reported on standard error.
-/

namespace Calculator

/-- Reports the events of a calculation if the verbosity asks for them. -/
def report (verbosity : Verbosity) (env : Environment) : Command → IO Unit
  | .expression code => do
      if verbosity.rank ≤ Verbosity.debug.rank then
        for event in (trace code env).1 do
          IO.eprintln event.message
  | _ => return ()

/-- Answers the lines of the input until it ends or one asks to leave. -/
partial def converse (verbosity : Verbosity) (env : Environment) : IO Unit := do
  let output ← IO.getStdout
  output.putStr prompt
  output.flush
  let line ← (← IO.getStdin).getLine
  if line.isEmpty then output.putStr "\n"
  else
    let command := Command.ofLine line
    report verbosity env command
    match command.reply env with
    | none => return ()
    | some reply =>
        output.putStr reply.output
        converse verbosity reply.environment

end Calculator

def main : IO Unit := do
  let name ← IO.getEnv "ABACUS_LOG_LEVEL"
  Calculator.converse (Calculator.Verbosity.ofName name) .empty
