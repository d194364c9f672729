import Calculator.Proofs.Legible

/-!
# Signs of numbers

Whether a sign is a part of the number after it is decided at the characters around
it. The words tell the same: it is one exactly if no operand ends before it.

* `Cut.last_endsOperand`: the last character of a word tells whether an operand can
  end with it.
* `OperandEnds`: an operand ends before a word of a list.
* `signs_of_scan`: where numbers have a sign, and where a sign stands by itself in
  front of a number.
-/

namespace Calculator

open Text (isLetter)

/-! ## Ends of operands -/

/-- An operand can end with the word. -/
def Token.endsOperand : Token → Bool
  | leaf kind _ _ => kind.endsOperand
  | _ => false

/-- The text of the word begins with a sign. -/
def Token.isSigned (t : Token) : Bool := t.lexeme.toList.head?.any isSignCharacter

/-- An operand ends with the word before the one at index `i`. -/
def OperandEnds (tokens : List Token) (i : Nat) : Prop :=
  0 < i ∧ ∃ t, tokens[i - 1]? = some t ∧ t.endsOperand = true

theorem endsOperand_eq_false {c : Char} (unknown : symbol? c = none)
    (numeral : isNumeral c = false) (letter : isLetter c = false) : endsOperand c = false := by
  have other : ∀ d ∈ [')', ']', '!'], c ≠ d := by
    rintro d hd rfl
    have known : [')', ']', '!'].all (fun d => (symbol? d).isSome) = true := by decide
    have here := List.all_eq_true.1 known c hd
    rw [unknown] at here
    cases here
  simp only [endsOperand, numeral, letter, Bool.false_or, Bool.or_eq_false_iff,
    decide_eq_false_iff_not]
  exact ⟨⟨other _ (by decide), other _ (by decide)⟩, other _ (by decide)⟩

/-- The last character of a word tells whether an operand can end with it. -/
theorem Cut.last_endsOperand {before next : Option Char} {kind : Kind} {cs : List Char}
    (cut : Cut before next kind cs) : cs.getLast?.any endsOperand = kind.endsOperand := by
  have ends := cut.last_operand
  cases cut with
  | number numerals => exact ends (.inl rfl)
  | signed isSign free numerals => exact ends (.inl rfl)
  | identifier letters => exact ends (.inr rfl)
  | symbol known loose => exact symbol_endsOperand known
  | illegal gap unknown numeral letter => exact endsOperand_eq_false unknown numeral letter

/-- The character before a word tells whether an operand ends with the word before it. -/
theorem lastOf_endsOperand {before next : Option Char} {front : List Token}
    (cut : WellCut before front next) :
    (lastOf before front).any endsOperand =
      front.getLast?.elim (before.any endsOperand) Token.endsOperand := by
  induction front generalizing before with
  | nil => rfl
  | cons t front ih =>
    obtain ⟨⟨kind, shape, first⟩, rest⟩ := cut
    have here : t.lexeme.toList.getLast?.any endsOperand = t.endsOperand := by
      cases t with
      | leaf kind' lexeme span =>
        cases shape
        exact first.last_endsOperand
      | pointer level lexeme span => cases shape
      | group family tokens span => cases shape
    rw [lastOf, ih rest, List.getLast?_cons, here]
    cases front.getLast? <;> rfl

/-! ## Signs -/

section

variable {front back : List Token} {t u : Token}

/-- How a word is written, and what comes before it. -/
theorem cut_at (cut : WellCut none (front ++ t :: back) none) :
    (∃ kind, t.shape = .leaf kind ∧
      Cut (lastOf none front) (firstOf back none) kind t.lexeme.toList) ∧
    (lastOf none front).any endsOperand = front.getLast?.any Token.endsOperand := by
  obtain ⟨left, right⟩ := wellCut_append.1 cut
  refine ⟨right.1, ?_⟩
  rw [lastOf_endsOperand left]
  cases front.getLast? <;> rfl

/-- No operand ends before a number that has a sign. -/
theorem free_of_signed (cut : WellCut none (front ++ t :: back) none)
    (number : t.shape = .leaf .number) (signed : t.isSigned = true) :
    front.getLast?.any Token.endsOperand = false := by
  obtain ⟨⟨kind, shape, word⟩, before⟩ := cut_at cut
  rw [number] at shape
  cases shape
  rw [← before, Bool.eq_false_iff]
  intro operand
  rw [Token.isSigned, word.unsigned operand] at signed
  cases signed

/-- A number without a sign begins with a numeral. -/
theorem numeral_of_unsigned {before next : Option Char} {cs : List Char}
    (word : Cut before next .number cs) (unsigned : cs.head?.any isSignCharacter = false) :
    cs.head?.any isNumeral = true := by
  cases word with
  | number numerals => exact numerals _ List.mem_cons_self
  | signed isSign free numerals =>
    rw [List.head?_cons, Option.any_some, isSign] at unsigned
    cases unsigned
  | symbol known loose => exact (symbol?_ne_number known).elim

/-- An operand ends before a sign that stands by itself in front of a number without
one. -/
theorem operand_before_sign (cut : WellCut none (front ++ t :: u :: back) none)
    (sign : t.isSign = true) (number : u.shape = .leaf .number) (unsigned : u.isSigned = false) :
    front.getLast?.any Token.endsOperand = true := by
  obtain ⟨⟨kind, shape, word⟩, before⟩ := cut_at cut
  have next : (firstOf (u :: back) none).any isNumeral = true := by
    rw [List.append_cons] at cut
    obtain ⟨⟨kind', shape', word'⟩, _⟩ := cut_at cut
    rw [number] at shape'
    cases shape'
    exact numeral_of_unsigned word' unsigned
  have operator : ∃ op : Operator, kind = .operator op ∧ op.isSign = true := by
    unfold Token.isSign at sign
    split at sign
    · cases shape
      exact ⟨_, rfl, sign⟩
    · cases sign
  obtain ⟨op, rfl, isSign⟩ := operator
  obtain ⟨c, text, known⟩ := word.exists_symbol (by simp) (by simp) (by simp)
  have first : t.lexeme.toList.head?.any isSignCharacter = true := by
    rw [text, List.head?_cons, Option.any_some, symbol_isSign known, isSign]
  rw [← before]
  rcases word.apart_sign (by simp) first with operand | other
  · exact operand
  · rw [next] at other
    cases other

end

theorem operandEnds_iff {tokens : List Token} {i : Nat} (within : i < tokens.length) :
    OperandEnds tokens i ↔ (tokens.take i).getLast?.any Token.endsOperand = true := by
  cases i with
  | zero => simp [OperandEnds]
  | succ i =>
    have here : tokens[i]? = some tokens[i] := List.getElem?_eq_getElem (Nat.lt_of_succ_lt within)
    rw [List.getLast?_take, if_neg (Nat.succ_ne_zero i), OperandEnds, Nat.add_sub_cancel, here]
    simp

/-- A number has a sign only where no operand ends before it, and a sign in front of a
number without one stands after an operand. So an operator between two operands is
never a part of a number, and a sign in front of an operand is no operator if a number
follows. -/
theorem signs_of_scan {code : String} {tokens : List Token} (h : scan code = .ok tokens)
    {i : Nat} {t : Token} (here : tokens[i]? = some t) :
    (t.shape = .leaf .number → t.isSigned = true → ¬ OperandEnds tokens i) ∧
    (∀ u, t.isSign = true → tokens[i + 1]? = some u → u.shape = .leaf .number →
      u.isSigned = false → OperandEnds tokens i) := by
  have cut := wellCut_scan h
  obtain ⟨within, at_i⟩ := List.getElem?_eq_some_iff.1 here
  have split : tokens = tokens.take i ++ t :: tokens.drop (i + 1) := by
    rw [← at_i, List.getElem_cons_drop, List.take_append_drop]
  rw [operandEnds_iff within]
  rw [split] at cut
  constructor
  · intro number signed operand
    rw [free_of_signed cut number signed] at operand
    cases operand
  · intro u sign next number unsigned
    obtain ⟨within', at_next⟩ := List.getElem?_eq_some_iff.1 next
    rw [← List.getElem_cons_drop within', at_next] at cut
    exact operand_before_sign cut sign number unsigned

theorem signs_of_scan_difference :
    let tokens : List Token := [.leaf .number "2" ⟨0, 0⟩, .leaf (.operator .minus) "-" ⟨2, 2⟩,
      .leaf .number "-3" ⟨4, 6⟩, .leaf (.operator .minus) "-" ⟨8, 8⟩, .leaf .number "4" ⟨9, 9⟩]
    scan "2 - -\t3 -4" = .ok tokens ∧ ¬ OperandEnds tokens 2 ∧ OperandEnds tokens 3 := by
  intro tokens
  have scanned : scan "2 - -\t3 -4" = .ok tokens := by decide +kernel
  exact ⟨scanned, (signs_of_scan scanned rfl).1 rfl rfl,
    (signs_of_scan scanned rfl).2 _ rfl rfl rfl rfl⟩

end Calculator
