import Calculator.Token
import Calculator.Fault
import Calculator.Text.Letter
import Calculator.Text.Digit

/-!
# From text to tokens

`scan` cuts a text into its words.

* `Word.next`: the word at the front of a text, told by its kind and the number
  of characters after its first. A sign belongs to a number if no operand ends
  before it and a number follows; the characters of a number may stand apart by
  spaces.
* `scanFrom`: the words of a text, one after the other. Every character stands
  in one word or in a gap between words (`scanFrom_lexemes`).
-/

namespace Calculator

open Text (isLetter isDigit)

/-! ## Characters -/

/-- The characters that may stand between words. -/
def isGap (c : Char) : Bool := c = ' ' || c = '\t' || c = '\r' || c = '\n'

/-- The characters of a number. -/
def isNumeral (c : Char) : Bool := isDigit c || c = '.'

/-- The characters in front of which a number may carry a sign. -/
def isSignCharacter (c : Char) : Bool := c = '+' || c = '-'

/-- The characters that end an operand: a sign after them is an operator. -/
def endsOperand (c : Char) : Bool :=
  isNumeral c || isLetter c || c = ')' || c = ']' || c = '!'

/-- The characters that are words of their own. -/
def symbol? : Char → Option Kind
  | '+' => some (.operator .plus)
  | '-' => some (.operator .minus)
  | '*' => some (.operator .times)
  | '•' => some (.operator .times)
  | '/' => some (.operator .divide)
  | ':' => some (.operator .divide)
  | '%' => some (.operator .percent)
  | '^' => some (.operator .power)
  | '(' => some (.opening .round)
  | ')' => some (.closing .round)
  | '[' => some (.opening .absolute)
  | ']' => some (.closing .absolute)
  | '!' => some .factorial
  | '=' => some .assign
  | _ => none

/-! ## The word at the front of a text -/

/-- The length of the run of numerals at the front, with the spaces between them
but none after the last. -/
def numeralRun : List Char → Nat
  | [] => 0
  | c :: rest =>
      if isNumeral c then numeralRun rest + 1
      else if c = ' ' then
        match numeralRun rest with
        | 0 => 0
        | n + 1 => n + 2
      else 0

/-- Whether a sign belongs to the number after it: `before` is the last character
before it that is no gap. -/
def signsNumber (before : Option Char) (rest : List Char) : Bool :=
  !before.any endsOperand && (rest.dropWhile isGap).head?.any isNumeral

/-- The kind of the word that starts with `c`, and how many of the characters
after `c` belong to it. -/
def nextWord (before : Option Char) (c : Char) (rest : List Char) : Kind × Nat :=
  if isSignCharacter c && signsNumber before rest then
    (.number, (rest.takeWhile isGap).length + numeralRun (rest.dropWhile isGap))
  else
    match symbol? c with
    | some kind => (kind, 0)
    | none =>
        if isNumeral c then (.number, numeralRun rest)
        else if isLetter c then (.identifier, (rest.takeWhile isLetter).length)
        else (.illegal, 0)

/-! ## All words -/

/-- The words of a text that starts at `position`; `before` is the last character
before it that is no gap. Gaps inside a number are not part of its lexeme. -/
def scanFrom (position : Nat) (before : Option Char) : List Char → List Token
  | [] => []
  | c :: rest =>
      if isGap c then scanFrom (position + 1) before rest
      else
        let word := nextWord before c rest
        let extent := c :: rest.take word.2
        .leaf word.1 (String.ofList (extent.filter (!isGap ·))) ⟨position, position + word.2⟩ ::
          scanFrom (position + word.2 + 1) extent.getLast? (rest.drop word.2)
termination_by cs => cs.length
decreasing_by
  · exact Nat.lt_succ_self _
  · simp only [List.length_drop, List.length_cons]; omega

/-- The words of a text. Only a text without any character is refused. -/
def scan (code : String) : Except Fault (List Token) :=
  if code.isEmpty then .error ⟨.emptyInput, none⟩ else .ok (scanFrom 0 none code.toList)

theorem eq_scanFrom_of_scan {code : String} {tokens : List Token} (h : scan code = .ok tokens) :
    tokens = scanFrom 0 none code.toList := by
  unfold scan at h
  split at h
  · cases h
  · cases h
    rfl

/-- The lexemes together are the text without its gaps. -/
theorem scanFrom_lexemes (position : Nat) (before : Option Char) (cs : List Char) :
    ((scanFrom position before cs).flatMap fun t => t.lexeme.toList) = cs.filter (!isGap ·) := by
  fun_induction scanFrom position before cs with
  | case1 => rfl
  | case2 position before c rest gap ih => simpa [gap] using ih
  | case3 position before c rest gap word extent ih =>
    have split : extent ++ rest.drop word.2 = c :: rest := by simp [extent]
    rw [List.flatMap_cons, ih, ← split, List.filter_append]
    simp [Token.lexeme]

end Calculator
