import Calculator.Main
import Calculator.ProgramNotation
import Calculator.Proofs.Limits
import Calculator.Proofs.Passes
import Calculator.Proofs.Brackets
import Calculator.Proofs.Arrangement
import Calculator.Proofs.Precedence
import Calculator.Proofs.Runnable
import Calculator.Proofs.Acceptance
import Calculator.Proofs.Characters
import Calculator.Proofs.Words
import Calculator.Proofs.Places
import Calculator.Proofs.Respacing
import Calculator.Proofs.Tidying
import Calculator.Proofs.Legible
import Calculator.Proofs.Rendering
import Calculator.Proofs.Balance
import Calculator.Proofs.Footprint
import Calculator.Proofs.Assignment
import Calculator.Proofs.Extents
import Calculator.Proofs.Sources
import Calculator.Proofs.Culprits
import Calculator.Proofs.Caret
import Calculator.Proofs.History
import Calculator.Proofs.Repetition
import Calculator.Proofs.Conversation
import Calculator.Proofs.Bracketing
import Calculator.Proofs.Leaves
import Calculator.Proofs.Spans
import Calculator.Proofs.Nesting
import Calculator.Proofs.Unlimited
import Calculator.Proofs.NormalForm
import Calculator.Proofs.Numerals
import Calculator.Proofs.Pointers
import Calculator.Proofs.Restoration
import Calculator.Proofs.Slots
import Calculator.Proofs.Partition
import Calculator.Proofs.Signs
import Calculator.Proofs.Erased
import Calculator.Proofs.Dump
import Calculator.Proofs.Lexemes
