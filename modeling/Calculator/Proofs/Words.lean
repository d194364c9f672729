import Calculator.Proofs.Characters

/-!
# Words and gaps

Which words a text is cut into, told without the scanner.

* `Loose`: numerals with spaces between them, which the scanner takes for one
  number (`numeralRun_loose`).
* `Cut`: a word that can stand between two characters. A sign is a part of the
  number after it exactly if no operand ends before it.
* `WellCut`: words in a row that a text can be cut into, which the words that the
  scanner finds are (`wellCut_scanFrom`).
-/

namespace Calculator

open Text (isLetter)

/-! ## Numerals with spaces between them -/

/-- Numerals, and the same with spaces between them. -/
inductive Loose : List Char → List Char → Prop where
  | one {c : Char} (numeral : isNumeral c = true) : Loose [c] [c]
  | more {c : Char} {cs text : List Char} (numeral : isNumeral c = true) (spaces : Nat)
      (tail : Loose cs text) : Loose (c :: cs) (c :: (List.replicate spaces ' ' ++ text))

namespace Loose

variable {cs text : List Char}

theorem numerals (h : Loose cs text) : ∀ c ∈ cs, isNumeral c = true := by
  induction h with
  | one numeral =>
    intro c hc
    rwa [List.mem_singleton.1 hc]
  | more numeral spaces tail ih =>
    intro c hc
    rcases List.mem_cons.1 hc with rfl | hc
    · exact numeral
    · exact ih c hc

theorem head (h : Loose cs text) :
    ∃ c cs' text', cs = c :: cs' ∧ text = c :: text' ∧ isNumeral c = true := by
  cases h with
  | one numeral => exact ⟨_, _, _, rfl, rfl, numeral⟩
  | more numeral spaces tail => exact ⟨_, _, _, rfl, rfl, numeral⟩

theorem filter (h : Loose cs text) : text.filter (!isGap ·) = cs := by
  induction h with
  | one numeral => simp [(numeral_facts numeral).1]
  | @more c cs text numeral spaces tail ih =>
    have blank : (List.replicate spaces ' ').filter (!isGap ·) = [] := by
      rw [List.filter_eq_nil_iff]
      intro d hd
      rw [List.eq_of_mem_replicate hd]
      decide
    rw [List.filter_cons, (numeral_facts numeral).1, List.filter_append, blank, ih]
    rfl

theorem getLast? (h : Loose cs text) : text.getLast? = cs.getLast? := by
  induction h with
  | one numeral => rfl
  | more numeral spaces tail ih =>
    obtain ⟨d, cs', text', rfl, rfl, _⟩ := tail.head
    rw [List.getLast?_cons_cons, ← ih, ← List.cons_append, List.getLast?_append]
    rfl

end Loose

theorem numeralRun_spaces {cs : List Char} (h : 0 < numeralRun cs) (n : Nat) :
    numeralRun (List.replicate n ' ' ++ cs) = n + numeralRun cs := by
  induction n with
  | zero => simp
  | succ n ih =>
    have space : isNumeral ' ' = false := by decide
    rw [List.replicate_succ, List.cons_append, numeralRun, space, ih]
    cases hr : numeralRun cs with
    | zero => omega
    | succ k =>
      simp only [Bool.false_eq_true, if_false, if_true]
      show n + k + 2 = _
      omega

/-- A run of numerals ends where nothing goes on with it. -/
theorem numeralRun_loose {cs text rest : List Char} (h : Loose cs text)
    (stops : numeralRun rest = 0) : numeralRun (text ++ rest) = text.length := by
  induction h with
  | one numeral =>
    rw [List.singleton_append, numeralRun, if_pos numeral, stops]
    rfl
  | more numeral spaces tail ih =>
    obtain ⟨d, cs', text', rfl, rfl, _⟩ := tail.head
    rw [List.cons_append, numeralRun, if_pos numeral, List.append_assoc,
      numeralRun_spaces (by rw [ih]; simp), ih]
    simp

/-- What the scanner takes for the rest of a number. -/
theorem loose_of_numeralRun {cs : List Char} (h : 0 < numeralRun cs) :
    ∃ n numerals text, cs.take (numeralRun cs) = List.replicate n ' ' ++ text ∧
      Loose numerals text := by
  induction cs with
  | nil => exact absurd h (Nat.lt_irrefl 0)
  | cons c cs ih =>
    rw [numeralRun] at h ⊢
    split at h
    · rename_i numeral
      rw [if_pos numeral, List.take_succ_cons]
      rcases Nat.eq_zero_or_pos (numeralRun cs) with none | some
      · exact ⟨0, [c], [c], by simp [none], .one numeral⟩
      · obtain ⟨n, numerals, text, taken, loose⟩ := ih some
        exact ⟨0, c :: numerals, _, by rw [taken]; rfl, .more numeral n loose⟩
    · rename_i other
      rw [if_neg other]
      split at h
      · rename_i space
        subst space
        cases hr : numeralRun cs with
        | zero =>
          rw [hr] at h
          exact absurd h (Nat.lt_irrefl 0)
        | succ k =>
          rw [hr] at ih
          obtain ⟨n, numerals, text, taken, loose⟩ := ih (Nat.succ_pos k)
          refine ⟨n + 1, numerals, text, ?_, loose⟩
          simp only [if_true]
          rw [List.take_succ_cons, taken]
          rfl
      · exact absurd h (Nat.lt_irrefl 0)

theorem loose_cons {c : Char} (numeral : isNumeral c = true) (rest : List Char) :
    ∃ numerals, Loose (c :: numerals) (c :: rest.take (numeralRun rest)) := by
  rcases Nat.eq_zero_or_pos (numeralRun rest) with none | some
  · exact ⟨[], by rw [none]; exact .one numeral⟩
  · obtain ⟨n, numerals, text, taken, loose⟩ := loose_of_numeralRun some
    exact ⟨numerals, by rw [taken]; exact .more numeral n loose⟩

/-! ## Words in a row -/

/-- A word that can stand between two characters: `before` is the last one before
it that is no gap, `next` the first one after it. -/
inductive Cut (before next : Option Char) : Kind → List Char → Prop where
  | number {c : Char} {cs : List Char} (numerals : ∀ d ∈ c :: cs, isNumeral d = true) :
      Cut before next .number (c :: cs)
  | signed {sign c : Char} {cs : List Char} (isSign : isSignCharacter sign = true)
      (free : before.any endsOperand = false) (numerals : ∀ d ∈ c :: cs, isNumeral d = true) :
      Cut before next .number (sign :: c :: cs)
  | identifier {c : Char} {cs : List Char} (letters : ∀ d ∈ c :: cs, isLetter d = true) :
      Cut before next .identifier (c :: cs)
  | symbol {c : Char} {kind : Kind} (known : symbol? c = some kind)
      (loose : isSignCharacter c = true →
        before.any endsOperand = true ∨ next.any isNumeral = false) :
      Cut before next kind [c]
  | illegal {c : Char} (gap : isGap c = false) (unknown : symbol? c = none)
      (numeral : isNumeral c = false) (letter : isLetter c = false) :
      Cut before next .illegal [c]

/-- The first character of words in a row, or the one after them. -/
def firstOf : List Token → Option Char → Option Char
  | [], next => next
  | t :: _, _ => t.lexeme.toList.head?

/-- Words that a text can be cut into. -/
def WellCut : Option Char → List Token → Option Char → Prop
  | _, [], _ => True
  | before, t :: rest, next =>
      (∃ kind, t.shape = .leaf kind ∧ Cut before (firstOf rest next) kind t.lexeme.toList) ∧
        WellCut t.lexeme.toList.getLast? rest next

theorem wellCut_cons {before next : Option Char} {kind : Kind} {lexeme : String} {span : Span}
    {rest : List Token} :
    WellCut before (.leaf kind lexeme span :: rest) next ↔
      Cut before (firstOf rest next) kind lexeme.toList ∧
        WellCut lexeme.toList.getLast? rest next := by
  constructor
  · rintro ⟨⟨_, shape, cut⟩, tail⟩
    injection shape with same
    subst same
    exact ⟨cut, tail⟩
  · rintro ⟨cut, tail⟩
    exact ⟨⟨kind, rfl, cut⟩, tail⟩

theorem signsNumber_eq (before : Option Char) (rest : List Char) :
    signsNumber before rest =
      (!before.any endsOperand && (rest.dropWhile isGap).head?.any isNumeral) := rfl

theorem firstOf_scanFrom (position : Nat) (before : Option Char) (cs : List Char) :
    firstOf (scanFrom position before cs) none = (cs.dropWhile isGap).head? := by
  fun_induction scanFrom position before cs with
  | case1 => rfl
  | case2 position before c rest gap ih => rw [ih, List.dropWhile_cons, if_pos gap]
  | case3 position before c rest gap word extent ih =>
    rw [List.dropWhile_cons, if_neg gap]
    simp [firstOf, Token.lexeme, extent, gap]

theorem filter_gaps {gap : List Char} (h : gap.all isGap = true) : gap.filter (!isGap ·) = [] := by
  rw [List.filter_eq_nil_iff]
  intro c hc
  simp [List.all_eq_true.1 h c hc]

/-- A text begins with characters of a class, and what comes after them does not. -/
theorem exists_takeWhile (p : Char → Bool) (cs : List Char) :
    ∃ front back, cs = front ++ back ∧ front.all p = true ∧ cs.takeWhile p = front ∧
      cs.dropWhile p = back :=
  ⟨cs.takeWhile p, cs.dropWhile p, List.takeWhile_append_dropWhile.symm, List.all_takeWhile,
    rfl, rfl⟩

/-- The word that the scanner finds, with its last character. -/
theorem cut_nextWord (before : Option Char) {c : Char} (rest : List Char)
    (gap : isGap c = false) :
    let word := nextWord before c rest
    let extent := c :: rest.take word.2
    Cut before ((rest.drop word.2).dropWhile isGap).head? word.1 (extent.filter (!isGap ·)) ∧
      extent.getLast? = (extent.filter (!isGap ·)).getLast? := by
  have alone : [c].filter (!isGap ·) = [c] := by simp [gap]
  unfold nextWord
  split
  · rename_i signed
    rw [Bool.and_eq_true, signsNumber_eq, Bool.and_eq_true] at signed
    obtain ⟨isSign, free, numeral⟩ := signed
    obtain ⟨blanks, back, split, gaps, front, rest'⟩ := exists_takeWhile isGap rest
    rw [rest'] at numeral
    cases back with
    | nil => cases numeral
    | cons d back =>
      obtain ⟨numerals, loose⟩ := loose_cons numeral back
      have run : numeralRun (d :: back) = numeralRun back + 1 := if_pos numeral
      have taken : rest.take (blanks.length + numeralRun (d :: back)) =
          blanks ++ d :: back.take (numeralRun back) := by
        rw [split, List.take_length_add_append, run, List.take_succ_cons]
      have lexeme : (c :: (blanks ++ d :: back.take (numeralRun back))).filter (!isGap ·) =
          c :: d :: numerals := by
        rw [List.filter_cons, gap, List.filter_append, filter_gaps gaps, loose.filter]
        rfl
      simp only [front, rest', taken, lexeme]
      refine ⟨.signed isSign (by simpa using free) loose.numerals, ?_⟩
      have last := loose.getLast?
      rw [List.getLast?_cons_cons, ← last, ← List.cons_append, List.getLast?_append]
      rfl
  · rename_i unsigned
    split
    · rename_i kind known
      simp only [List.take_zero, List.drop_zero, alone]
      refine ⟨.symbol known ?_, trivial⟩
      intro sign
      rw [sign, Bool.true_and, signsNumber_eq] at unsigned
      cases ends : before.any endsOperand with
      | true => exact .inl rfl
      | false =>
        rw [ends, Bool.not_false, Bool.true_and] at unsigned
        exact .inr (Bool.eq_false_iff.2 unsigned)
    · rename_i unknown
      split
      · rename_i numeral
        obtain ⟨numerals, loose⟩ := loose_cons numeral rest
        simp only [loose.filter]
        exact ⟨.number loose.numerals, loose.getLast?⟩
      · rename_i other
        split
        · rename_i letter
          obtain ⟨word, back, rfl, letters, front, _⟩ := exists_takeWhile isLetter rest
          have all : ∀ d ∈ c :: word, isLetter d = true := by
            intro d hd
            rcases List.mem_cons.1 hd with rfl | hd
            · exact letter
            · exact List.all_eq_true.1 letters d hd
          have kept : (c :: word).filter (!isGap ·) = c :: word := by
            rw [List.filter_eq_self]
            intro d hd
            rw [(letter_facts (all d hd)).1]
            rfl
          simp only [front, List.take_left, kept]
          exact ⟨.identifier all, trivial⟩
        · rename_i nonletter
          simp only [List.take_zero, List.drop_zero, alone]
          exact ⟨.illegal gap unknown (Bool.eq_false_iff.2 other) (Bool.eq_false_iff.2 nonletter),
            trivial⟩

theorem wellCut_scanFrom (position : Nat) (before : Option Char) (cs : List Char) :
    WellCut before (scanFrom position before cs) none := by
  fun_induction scanFrom position before cs with
  | case1 => trivial
  | case2 position before c rest gap ih => exact ih
  | case3 position before c rest gap word extent ih =>
    obtain ⟨cut, last⟩ := cut_nextWord before rest (Bool.eq_false_iff.2 gap)
    refine ⟨⟨word.1, rfl, ?_⟩, ?_⟩
    · rw [firstOf_scanFrom]
      simpa [Token.lexeme] using cut
    · simp only [Token.lexeme, String.toList_ofList]
      rw [← last]
      exact ih

end Calculator
