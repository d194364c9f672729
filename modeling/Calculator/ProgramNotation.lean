/-!
# The notation of programs

`programNotation` writes a calculation as programming languages do: absolute
values as calls, powers with two stars, percentages as a division by a hundred
and a product. It goes by single characters and does not check the text.
-/

namespace Calculator

/-- What programs write for a character. -/
def programCharacter : Char → List Char
  | '[' => "abs(".toList
  | ']' => [')']
  | '^' => "**".toList
  | '%' => "/100*".toList
  | c => [c]

def programNotation (code : String) : String :=
  String.ofList (code.toList.flatMap programCharacter)

end Calculator
