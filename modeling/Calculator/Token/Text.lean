import Calculator.Token.Label
import Calculator.Text.Blank

/-!
# Tokens as text

* `sourceText`: tokens written out with brackets around every group, so that the
  text can be read again; `tidy` takes away the blanks nobody writes.
* `Token.tagged`: one token with its sort.
* `dump`: a tree with one line for each token, indented by its depth
  (`dumpAll_length`).
-/

namespace Calculator

open Text (isBlank)

/-! ## Tidying up -/

def isOpeningCharacter (c : Char) : Bool := c = '(' || c = '['

def isClosingCharacter (c : Char) : Bool := c = ')' || c = ']'

/-- Drops the blanks after an opening bracket. -/
def dropAfterOpening (afterOpening : Bool) : List Char → List Char
  | [] => []
  | c :: rest =>
      if afterOpening && isBlank c then dropAfterOpening true rest
      else c :: dropAfterOpening (isOpeningCharacter c) rest

/-- Drops the blanks before the characters of a class. -/
def dropBefore (p : Char → Bool) : List Char → List Char
  | [] => []
  | c :: rest =>
      let tidied := dropBefore p rest
      if isBlank c && tidied.head?.any p then tidied else c :: tidied

/-- Drops the blanks between a letter and a round bracket that opens. -/
def dropBeforeArgument (afterLetter : Bool) : List Char → List Char
  | [] => []
  | c :: rest =>
      if afterLetter && isBlank c && (rest.dropWhile isBlank).head?.any (· = '(') then
        dropBeforeArgument true rest
      else c :: dropBeforeArgument c.isAlpha rest

/-- Without the blanks inside brackets, before factorials and before arguments. -/
def tidy (cs : List Char) : List Char :=
  dropBeforeArgument false
    (dropBefore (· = '!') (dropBefore isClosingCharacter (dropAfterOpening false cs)))

/-! ## Text that can be read again -/

/-- The parts of a list with a space between any two. -/
def spaced : List (List Char) → List Char
  | [] => []
  | [part] => part
  | part :: rest => part ++ ' ' :: spaced rest

mutual

def Token.written : Token → List Char
  | .leaf _ lexeme _ | .pointer _ lexeme _ => lexeme.toList
  | .group .round tokens _ => '(' :: tidy (spaced (writtenAll tokens)) ++ [')']
  | .group .absolute tokens _ => '[' :: tidy (spaced (writtenAll tokens)) ++ [']']

/-- The written form of each token of a list. -/
def writtenAll : List Token → List (List Char)
  | [] => []
  | t :: rest => t.written :: writtenAll rest

end

/-- The tokens as text, with brackets around every group. -/
def sourceText (tokens : List Token) : String :=
  String.ofList (tidy (spaced (writtenAll tokens)))

/-- A token with its sort in front. -/
def Token.tagged (t : Token) : String :=
  "<" ++ t.shape.label ++ ">" ++
    match t with
    | .leaf _ lexeme _ | .pointer _ lexeme _ => lexeme
    | .group bracket tokens span => sourceText [.group bracket tokens span]

/-- The tokens of a list with their sorts. -/
def taggedText (tokens : List Token) : String := " ".intercalate (tokens.map Token.tagged)

/-! ## Trees line by line -/

/-- Two spaces for each level. -/
def indentation (depth : Nat) : String := String.ofList (List.replicate (2 * depth) ' ')

mutual

/-- The lines of a token that stands `depth` levels below the top. -/
def Token.dumpLines (depth : Nat) : Token → List String
  | .leaf kind lexeme _ => [indentation depth ++ kind.label ++ "(" ++ lexeme ++ ")"]
  | .pointer _ lexeme _ => [indentation depth ++ Shape.pointer.label ++ "(" ++ lexeme ++ ")"]
  | .group bracket tokens _ =>
      (indentation depth ++ Shape.group.label ++ " -> \x7b" ++ bracket.label ++ "\x7d") ::
        dumpAll (depth + 1) tokens

/-- The lines of the tokens of a list. -/
def dumpAll (depth : Nat) : List Token → List String
  | [] => []
  | t :: rest => t.dumpLines depth ++ dumpAll depth rest

end

/-- A tree with one line for each token. -/
def dump (tokens : List Token) (depth : Nat) : String := "\n".intercalate (dumpAll depth tokens)

/-! ## Sizes -/

mutual

/-- The number of tokens of a tree, groups included. -/
def Token.size : Token → Nat
  | .leaf _ _ _ | .pointer _ _ _ => 1
  | .group _ tokens _ => sizeAll tokens + 1

def sizeAll : List Token → Nat
  | [] => 0
  | t :: rest => t.size + sizeAll rest

end

mutual

/-- How many groups are inside one another. -/
def Token.depth : Token → Nat
  | .leaf _ _ _ | .pointer _ _ _ => 0
  | .group _ tokens _ => depthAll tokens + 1

def depthAll : List Token → Nat
  | [] => 0
  | t :: rest => max t.depth (depthAll rest)

end

mutual

theorem Token.dumpLines_length (depth : Nat) (t : Token) :
    (t.dumpLines depth).length = t.size := by
  cases t with
  | leaf kind lexeme span => rfl
  | pointer level lexeme span => rfl
  | group bracket tokens span =>
    simp [Token.dumpLines, Token.size, dumpAll_length (depth + 1) tokens]

theorem dumpAll_length (depth : Nat) (tokens : List Token) :
    (dumpAll depth tokens).length = sizeAll tokens := by
  cases tokens with
  | nil => rfl
  | cons t rest =>
    simp [dumpAll, sizeAll, Token.dumpLines_length depth t, dumpAll_length depth rest]

end

end Calculator
