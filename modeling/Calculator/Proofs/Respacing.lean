import Calculator.Session
import Calculator.Proofs.Places
import Calculator.Proofs.Words

/-!
# White space does not matter

* `Respaced`: a text that consists of given words, with gaps between them and inside
  numbers. Gaps are left out only where two words do not run together.
* `scanFrom_respaced`: the scanner gets the words of such a text back.
* `calculate_respaced`: the outcome is that of the text the words come from.
-/

namespace Calculator

open Text (isLetter)

/-! ## Texts of given words -/

/-- The ways to write a word: in a number, spaces may stand between the numerals,
and any gap after the sign. -/
inductive Spelled : Kind → List Char → List Char → Prop where
  | number {cs text : List Char} (loose : Loose cs text) : Spelled .number cs text
  | signed {sign : Char} {gap cs text : List Char} (isSign : isSignCharacter sign = true)
      (blank : gap.all isGap = true) (loose : Loose cs text) :
      Spelled .number (sign :: cs) (sign :: (gap ++ text))
  | word {kind : Kind} {cs : List Char} (other : kind ≠ .number) : Spelled kind cs cs

/-- The gap keeps a word from running together with the one before it: numbers need
more than spaces between them, names anything. -/
def Separates : Option Kind → Kind → List Char → Prop
  | some .number, .number, gap => ∃ c ∈ gap, c ≠ ' '
  | some .identifier, .identifier, gap => gap ≠ []
  | _, _, _ => True

/-- The text has the given words, the first of them after a word of a given kind. -/
inductive Respaced : Option Kind → List Token → List Char → Prop where
  | done {before : Option Kind} {gap : List Char} (blank : gap.all isGap = true) :
      Respaced before [] gap
  | word {before : Option Kind} {kind : Kind} {lexeme : String} {span : Span}
      {tokens : List Token} {gap text rest : List Char} (blank : gap.all isGap = true)
      (separates : Separates before kind gap) (spelled : Spelled kind lexeme.toList text)
      (tail : Respaced (some kind) tokens rest) :
      Respaced before (.leaf kind lexeme span :: tokens) (gap ++ (text ++ rest))

/-! ## The words of a text -/

theorem scanFrom_gap {gap : List Char} (blank : gap.all isGap = true) (position : Nat)
    (before : Option Char) (cs : List Char) :
    ∃ position', scanFrom position before (gap ++ cs) = scanFrom position' before cs := by
  induction gap generalizing position with
  | nil => exact ⟨position, rfl⟩
  | cons c gap ih =>
    rw [List.all_cons, Bool.and_eq_true] at blank
    obtain ⟨position', h⟩ := ih blank.2 (position + 1)
    exact ⟨position', by rw [List.cons_append, scanFrom, if_pos blank.1, h]⟩

/-- A word and any way to write it begin with the same character. -/
theorem exists_head {before next : Option Char} {kind : Kind} {cs text : List Char}
    (cut : Cut before next kind cs) (spelled : Spelled kind cs text) :
    ∃ c text', text = c :: text' ∧ cs.head? = some c ∧ isGap c = false ∧
      (kind ≠ .number → isNumeral c = false) ∧ (kind ≠ .identifier → isLetter c = false) := by
  have head : text.head? = cs.head? := by
    cases spelled with
    | number loose =>
      obtain ⟨c, cs', text', rfl, rfl, _⟩ := loose.head
      rfl
    | signed isSign blank loose => rfl
    | word other => rfl
  have first : ∃ c, cs.head? = some c ∧ isGap c = false ∧
      (kind ≠ .number → isNumeral c = false) ∧ (kind ≠ .identifier → isLetter c = false) := by
    cases cut with
    | number numerals =>
      have facts := numeral_facts (numerals _ List.mem_cons_self)
      exact ⟨_, rfl, facts.1, fun h => absurd rfl h, fun _ => facts.2.2.1⟩
    | signed isSign free numerals =>
      obtain ⟨gap, numeral, letter, _⟩ := sign_facts isSign
      exact ⟨_, rfl, gap, fun _ => numeral, fun _ => letter⟩
    | identifier letters =>
      have facts := letter_facts (letters _ List.mem_cons_self)
      exact ⟨_, rfl, facts.1, fun _ => facts.2.2.1, fun h => absurd rfl h⟩
    | symbol known loose =>
      obtain ⟨gap, _, numeral, letter⟩ := symbol_facts known
      exact ⟨_, rfl, gap, fun _ => numeral, fun _ => letter⟩
    | illegal gap unknown numeral letter => exact ⟨_, rfl, gap, fun _ => numeral, fun _ => letter⟩
  obtain ⟨c, hc, facts⟩ := first
  rw [hc] at head
  cases text with
  | nil => cases head
  | cons d text =>
    injection head with same
    exact ⟨c, text, by rw [same], hc, facts⟩

theorem firstOf_respaced {previous : Option Kind} {tokens : List Token} {text : List Char}
    (respaced : Respaced previous tokens text) {before : Option Char}
    (cut : WellCut before tokens none) :
    (text.dropWhile isGap).head? = firstOf tokens none := by
  cases respaced with
  | done blank =>
    have none : (text ++ []).dropWhile isGap = [].dropWhile isGap :=
      List.dropWhile_append_of_pos (List.all_eq_true.1 blank)
    rw [List.append_nil] at none
    rw [none]
    rfl
  | word blank separates spelled tail =>
    obtain ⟨c, text', rfl, first, notGap, _⟩ := exists_head (wellCut_cons.1 cut).1 spelled
    rw [List.dropWhile_append_of_pos (List.all_eq_true.1 blank), List.cons_append,
      List.dropWhile_cons, notGap]
    exact first.symm

/-! ## Where a word ends -/

theorem numeralRun_blank {gap cs : List Char} (blank : gap.all isGap = true)
    (stops : numeralRun cs = 0) : numeralRun (gap ++ cs) = 0 := by
  induction gap with
  | nil => exact stops
  | cons c gap ih =>
    rw [List.all_cons, Bool.and_eq_true] at blank
    rw [List.cons_append, numeralRun, (isGap_facts blank.1).1, ih blank.2]
    simp

theorem numeralRun_break {gap : List Char} (blank : gap.all isGap = true)
    (apart : ∃ c ∈ gap, c ≠ ' ') (cs : List Char) : numeralRun (gap ++ cs) = 0 := by
  induction gap with
  | nil =>
    obtain ⟨c, hc, _⟩ := apart
    cases hc
  | cons c gap ih =>
    rw [List.all_cons, Bool.and_eq_true] at blank
    rw [List.cons_append, numeralRun, (isGap_facts blank.1).1]
    by_cases space : c = ' '
    · obtain ⟨d, hd, other⟩ := apart
      rcases List.mem_cons.1 hd with rfl | hd
      · exact absurd space other
      · rw [ih blank.2 ⟨d, hd, other⟩, if_pos space]
        rfl
    · rw [if_neg space]
      rfl

/-- No numeral goes on with a number. -/
theorem numeralRun_respaced {tokens : List Token} {text : List Char}
    (respaced : Respaced (some .number) tokens text) {before : Option Char}
    (cut : WellCut before tokens none) : numeralRun text = 0 := by
  cases respaced with
  | done blank =>
    have none : numeralRun (text ++ []) = 0 := numeralRun_blank blank rfl
    rwa [List.append_nil] at none
  | @word _ kind lexeme span tokens gap text rest blank separates spelled tail =>
    by_cases number : kind = .number
    · subst number
      exact numeralRun_break blank separates _
    · obtain ⟨c, text', rfl, _, notGap, other, _⟩ := exists_head (wellCut_cons.1 cut).1 spelled
      refine numeralRun_blank blank ?_
      have space : c ≠ ' ' := by
        rintro rfl
        cases notGap
      rw [List.cons_append, numeralRun, other number, if_neg space]
      rfl

/-- No letter goes on with a name. -/
theorem letters_respaced {tokens : List Token} {text : List Char}
    (respaced : Respaced (some .identifier) tokens text) {before : Option Char}
    (cut : WellCut before tokens none) : text.takeWhile isLetter = [] := by
  have stops : ∀ (c : Char) (cs : List Char), isLetter c = false →
      (c :: cs).takeWhile isLetter = [] := by
    intro c cs other
    rw [List.takeWhile_cons, other]
    rfl
  cases respaced with
  | done blank =>
    cases text with
    | nil => rfl
    | cons c text =>
      rw [List.all_cons, Bool.and_eq_true] at blank
      exact stops c _ (isGap_facts blank.1).2.1
  | @word _ kind lexeme span tokens gap text rest blank separates spelled tail =>
    cases gap with
    | nil =>
      have other : kind ≠ .identifier := by
        rintro rfl
        exact separates rfl
      obtain ⟨c, text', rfl, _, _, _, letter⟩ := exists_head (wellCut_cons.1 cut).1 spelled
      exact stops c _ (letter other)
    | cons c gap =>
      rw [List.all_cons, Bool.and_eq_true] at blank
      exact stops c _ (isGap_facts blank.1).2.1

/-! ## The words come back -/

theorem nextWord_numeral (before : Option Char) {c : Char} (numeral : isNumeral c = true)
    (rest : List Char) : nextWord before c rest = (.number, numeralRun rest) := by
  obtain ⟨_, _, _, sign, symbol⟩ := numeral_facts numeral
  simp [nextWord, sign, symbol, numeral]

theorem nextWord_sign {before : Option Char} {sign c : Char} {gap : List Char}
    (isSign : isSignCharacter sign = true) (free : before.any endsOperand = false)
    (blank : gap.all isGap = true) (numeral : isNumeral c = true) (rest : List Char) :
    nextWord before sign (gap ++ c :: rest) =
      (.number, gap.length + numeralRun (c :: rest)) := by
  have notGap := (numeral_facts numeral).1
  have front : (gap ++ c :: rest).takeWhile isGap = gap := by
    rw [List.takeWhile_append_of_pos (List.all_eq_true.1 blank), List.takeWhile_cons, notGap]
    simp
  have back : (gap ++ c :: rest).dropWhile isGap = c :: rest := by
    rw [List.dropWhile_append_of_pos (List.all_eq_true.1 blank), List.dropWhile_cons, notGap]
    rfl
  rw [nextWord, signsNumber_eq, front, back, isSign, free, List.head?_cons, Option.any_some,
    numeral]
  rfl

theorem nextWord_letter (before : Option Char) {c : Char} (letter : isLetter c = true)
    (rest : List Char) :
    nextWord before c rest = (.identifier, (rest.takeWhile isLetter).length) := by
  obtain ⟨_, _, numeral, sign, symbol⟩ := letter_facts letter
  simp [nextWord, numeral, sign, symbol, letter]

theorem nextWord_symbol {before : Option Char} {c : Char} {kind : Kind} {rest : List Char}
    (known : symbol? c = some kind)
    (loose : isSignCharacter c = true →
      before.any endsOperand = true ∨ (rest.dropWhile isGap).head?.any isNumeral = false) :
    nextWord before c rest = (kind, 0) := by
  have unsigned : (isSignCharacter c && signsNumber before rest) = false := by
    cases sign : isSignCharacter c with
    | false => rfl
    | true =>
      rw [signsNumber_eq]
      rcases loose sign with ends | other
      · simp [ends]
      · simp [other]
  simp [nextWord, unsigned, known]

theorem nextWord_illegal (before : Option Char) {c : Char} (unknown : symbol? c = none)
    (numeral : isNumeral c = false) (letter : isLetter c = false) (rest : List Char) :
    nextWord before c rest = (.illegal, 0) := by
  have sign : isSignCharacter c = false := by
    rw [Bool.eq_false_iff]
    intro sign
    rw [isSignCharacter_iff] at sign
    rcases sign with rfl | rfl <;> cases unknown
  simp [nextWord, sign, unknown, numeral, letter]

theorem filter_alone {c : Char} (gap : isGap c = false) : [c].filter (!isGap ·) = [c] := by
  simp [gap]

/-- The scanner finds a word at the front of a text if what comes after it does not
go on with it. -/
theorem nextWord_spelled {before : Option Char} {kind : Kind} {cs text rest : List Char}
    (cut : Cut before (rest.dropWhile isGap).head? kind cs) (spelled : Spelled kind cs text)
    (number : kind = .number → numeralRun rest = 0)
    (identifier : kind = .identifier → rest.takeWhile isLetter = []) :
    ∃ c text', text = c :: text' ∧ isGap c = false ∧
      nextWord before c (text' ++ rest) = (kind, text'.length) ∧
      text.filter (!isGap ·) = cs ∧ text.getLast? = cs.getLast? := by
  cases cut with
  | number numerals =>
    cases spelled with
    | number loose =>
      obtain ⟨c, cs', text', hcs, rfl, numeral⟩ := loose.head
      refine ⟨c, text', rfl, (numeral_facts numeral).1, ?_, loose.filter, loose.getLast?⟩
      have run := numeralRun_loose loose (number rfl)
      rw [List.cons_append, numeralRun, if_pos numeral, List.length_cons] at run
      rw [nextWord_numeral before numeral, Nat.succ.inj run]
    | signed isSign blank loose =>
      have := numerals _ List.mem_cons_self
      rw [(sign_facts isSign).2.1] at this
      cases this
    | word other => exact absurd rfl other
  | @signed sign d ds isSign free numerals =>
    cases spelled with
    | number loose =>
      have := loose.numerals _ List.mem_cons_self
      rw [(sign_facts isSign).2.1] at this
      cases this
    | @signed _ gap _ text isSign' blank loose =>
      obtain ⟨c, cs', text', hcs, rfl, numeral⟩ := loose.head
      have run := numeralRun_loose loose (number rfl)
      refine ⟨sign, gap ++ c :: text', rfl, (sign_facts isSign).1, ?_, ?_, ?_⟩
      · rw [List.append_assoc, List.cons_append, nextWord_sign isSign free blank numeral,
          ← List.cons_append, run, List.length_append]
      · rw [List.filter_cons, (sign_facts isSign).1, List.filter_append, filter_gaps blank,
          loose.filter]
        rfl
      · rw [List.getLast?_cons_cons, ← loose.getLast?, ← List.cons_append, List.getLast?_append]
        rfl
    | word other => exact absurd rfl other
  | @identifier c cs letters =>
    cases spelled with
    | word other =>
      have letter := letters c List.mem_cons_self
      refine ⟨c, cs, rfl, (letter_facts letter).1, ?_, ?_, rfl⟩
      · rw [nextWord_letter before letter,
          List.takeWhile_append_of_pos fun d hd => letters d (List.mem_cons_of_mem _ hd),
          identifier rfl, List.append_nil]
      · rw [List.filter_eq_self]
        intro d hd
        rw [(letter_facts (letters d hd)).1]
        rfl
  | @symbol c kind known loose =>
    cases spelled with
    | number _ => exact (symbol?_ne_number known).elim
    | signed _ _ _ => exact (symbol?_ne_number known).elim
    | word other =>
      have gap := (symbol_facts known).1
      exact ⟨c, [], rfl, gap, nextWord_symbol known loose, filter_alone gap, rfl⟩
  | @illegal c gap unknown numeral letter =>
    cases spelled with
    | word other =>
      exact ⟨c, [], rfl, gap, nextWord_illegal before unknown numeral letter rest,
        filter_alone gap, rfl⟩

/-- The scanner gets the words of a respaced text back. -/
theorem scanFrom_respaced {previous : Option Kind} {tokens : List Token} {text : List Char}
    (respaced : Respaced previous tokens text) {before : Option Char}
    (cut : WellCut before tokens none) (position : Nat) :
    (scanFrom position before text).map Token.unplaced = tokens.map Token.unplaced := by
  induction respaced generalizing before position with
  | @done _ gap blank =>
    obtain ⟨position', h⟩ := scanFrom_gap blank position before []
    rw [List.append_nil] at h
    rw [h, scanFrom]
  | @word _ kind lexeme span tokens gap text rest blank separates spelled tail ih =>
    obtain ⟨position', h⟩ := scanFrom_gap blank position before (text ++ rest)
    -- Whether a sign belongs to a number is seen at the characters on both sides of
    -- the word, which are the same in both texts.
    obtain ⟨cut, cuts⟩ := wellCut_cons.1 cut
    rw [← firstOf_respaced tail cuts] at cut
    obtain ⟨c, text', rfl, notGap, next, filtered, last⟩ := nextWord_spelled cut spelled
      (by rintro rfl; exact numeralRun_respaced tail cuts)
      (by rintro rfl; exact letters_respaced tail cuts)
    rw [h, List.cons_append, scanFrom, notGap]
    simp only [Bool.false_eq_true, if_false, next, List.take_left, List.drop_left, filtered, last,
      List.map_cons, ih cuts, Token.unplaced, String.ofList_toList]

theorem wellCut_scan {code : String} {tokens : List Token} (h : scan code = .ok tokens) :
    WellCut none tokens none := by
  rw [eq_scanFrom_of_scan h]
  exact wellCut_scanFrom _ _ _

theorem scan_respaced {text : String} {tokens : List Token} (some : tokens ≠ [])
    (respaced : Respaced none tokens text.toList) (cut : WellCut none tokens none) :
    ∃ tokens', scan text = .ok tokens' ∧
      tokens'.map Token.unplaced = tokens.map Token.unplaced := by
  have same := scanFrom_respaced respaced cut 0
  refine ⟨_, ?_, same⟩
  unfold scan
  rw [if_neg]
  intro empty
  rw [String.isEmpty_iff] at empty
  subst empty
  rw [String.toList_empty, scanFrom] at same
  exact some (List.map_eq_nil_iff.1 same.symm)

/-- White space does not matter: a text of the words of another one is cut into the
same words, and has the same value and effect, or a fault with the same cause, whatever
the limits on the depth are. -/
theorem calculate_respaced {code text : String} {tokens : List Token}
    (scanned : scan code = .ok tokens) (some : tokens ≠ [])
    (respaced : Respaced none tokens text.toList) (limits : Limits) (env : Environment) :
    (∃ tokens', scan text = .ok tokens' ∧
      tokens'.map (fun t => (t.shape, t.lexeme)) = tokens.map fun t => (t.shape, t.lexeme)) ∧
    (calculateWithin limits text env).Like (calculateWithin limits code env) := by
  obtain ⟨tokens', rescanned, same⟩ := scan_respaced some respaced (wellCut_scan scanned)
  refine ⟨⟨tokens', rescanned, ?_⟩, ?_⟩
  · have told : ∀ ts : List Token, ts.map (fun t => (t.shape, t.lexeme)) =
        (ts.map Token.unplaced).map fun t => (t.shape, t.lexeme) := by
      intro ts
      rw [List.map_map]
      refine List.map_congr_left fun t _ => ?_
      cases t <;> rfl
    rw [told, told tokens, same]
  · rw [calculateWithin_eq rescanned, calculateWithin_eq scanned]
    exact calculateTokensWithin_like same _ _ env

theorem calculate_respaced_difference :
    (calculate " 1 . 5-\n3 " .empty).Like (calculate "1.5 -3" .empty) := by
  have scanned : scan "1.5 -3" = .ok [.leaf .number "1.5" ⟨0, 2⟩,
      .leaf (.operator .minus) "-" ⟨4, 4⟩, .leaf .number "3" ⟨5, 5⟩] := by
    decide +kernel
  have number : Loose ['1', '.', '5'] ['1', ' ', '.', ' ', '5'] :=
    .more (by decide) 1 (.more (by decide) 1 (.one (by decide)))
  have written : " 1 . 5-\n3 ".toList =
      [' '] ++ (['1', ' ', '.', ' ', '5'] ++ ([] ++ (['-'] ++ (['\n'] ++ (['3'] ++ [' ']))))) := by
    decide
  have respaced : Respaced none [.leaf .number "1.5" ⟨0, 2⟩,
      .leaf (.operator .minus) "-" ⟨4, 4⟩, .leaf .number "3" ⟨5, 5⟩] " 1 . 5-\n3 ".toList := by
    rw [written]
    exact .word (by decide) trivial (.number number) <|
      .word (by decide) trivial (.word (by decide)) <|
        .word (by decide) trivial (.number (.one (by decide))) (.done (by decide))
  exact (calculate_respaced scanned (by decide) respaced .standard .empty).2

end Calculator
