import Calculator.Proofs.Assignment
import Calculator.Proofs.Extents

/-!
# Brackets around a text

Round brackets around a text that can be read change nothing but the places of faults,
and square ones take the absolute value besides.

* `scanFrom_append_separator`: a character that goes on with no word separates the words
  before it from those after it.
* `exists_scan_bracketed`: the words between the brackets are those of the text, one character
  further on.
* `evaluateWithin_family`: a group does to its value what its bracket says, and nothing
  else.
* `calculate_bracketed`: the outcome of the whole.
-/

namespace Calculator

open Text (isLetter)

/-! ## Words before a separator -/

/-- The character goes on with no word. -/
structure Separator (c : Char) : Prop where
  gap : isGap c = false
  numeral : isNumeral c = false
  letter : isLetter c = false

theorem Separator.of_symbol {c : Char} {kind : Kind} (known : symbol? c = some kind) :
    Separator c :=
  have facts := symbol_facts known
  ⟨facts.1, facts.2.2.1, facts.2.2.2⟩

section

variable {separator : Char} (apart : Separator separator)

include apart

theorem numeralRun_append_separator (cs more : List Char) :
    numeralRun (cs ++ separator :: more) = numeralRun cs := by
  induction cs with
  | nil =>
    have other : separator ≠ ' ' := by
      rintro rfl
      cases apart.gap
    simp [numeralRun, apart.numeral, other]
  | cons c cs ih => rw [List.cons_append, numeralRun, ih, numeralRun]

omit apart in
theorem takeWhile_append_separator {p : Char → Bool} (stops : p separator = false)
    (cs more : List Char) :
    (cs ++ separator :: more).takeWhile p = cs.takeWhile p := by
  induction cs with
  | nil => simp [stops]
  | cons c cs ih => rw [List.cons_append, List.takeWhile_cons, ih, List.takeWhile_cons]

omit apart in
theorem dropWhile_append_separator {p : Char → Bool} (stops : p separator = false)
    (cs more : List Char) :
    (cs ++ separator :: more).dropWhile p = cs.dropWhile p ++ separator :: more := by
  induction cs with
  | nil => simp [stops]
  | cons c cs ih =>
    rw [List.cons_append, List.dropWhile_cons, ih, List.dropWhile_cons]
    split <;> rfl

/-- A word ends where it would at the end of the text. -/
theorem nextWord_append_separator (before : Option Char) (c : Char) (rest more : List Char) :
    nextWord before c (rest ++ separator :: more) = nextWord before c rest := by
  have signs : signsNumber before (rest ++ separator :: more) = signsNumber before rest := by
    rw [signsNumber_eq, signsNumber_eq, dropWhile_append_separator apart.gap]
    cases rest.dropWhile isGap with
    | nil => exact congrArg _ apart.numeral
    | cons d back => rfl
  rw [nextWord, signs, takeWhile_append_separator apart.gap, dropWhile_append_separator apart.gap,
    takeWhile_append_separator apart.letter, numeralRun_append_separator apart,
    numeralRun_append_separator apart, nextWord]

/-- The words before a separator are those of the text that ends there. -/
theorem scanFrom_append_separator (position : Nat) (before : Option Char)
    (cs more : List Char) :
    ∃ last, scanFrom position before (cs ++ separator :: more) =
      scanFrom position before cs ++ scanFrom (position + cs.length) last (separator :: more) := by
  fun_induction scanFrom position before cs with
  | case1 position before => exact ⟨before, rfl⟩
  | case2 position before c rest gap ih =>
    obtain ⟨last, ih⟩ := ih
    refine ⟨last, ?_⟩
    rw [List.cons_append, scanFrom, if_pos gap, ih, List.length_cons, Nat.add_right_comm,
      Nat.add_assoc]
  | case3 position before c rest gap word extent ih =>
    obtain ⟨last, ih⟩ := ih
    -- The word ends before the separator, so what follows it is cut in the same way.
    have short : word.2 ≤ rest.length := nextWord_le before c rest
    have front : (rest ++ separator :: more).take word.2 = rest.take word.2 :=
      List.take_append_of_le_length short
    have back : (rest ++ separator :: more).drop word.2 = rest.drop word.2 ++ separator :: more :=
      List.drop_append_of_le_length short
    have further : position + word.2 + 1 + (rest.drop word.2).length =
        position + (c :: rest).length := by
      rw [List.length_drop, List.length_cons]
      omega
    refine ⟨last, ?_⟩
    rw [List.cons_append, scanFrom, if_neg gap, nextWord_append_separator apart, List.cons_append,
      ← further, ← ih, ← back]
    simp only [extent, ← front]
    rfl

end

/-! ## Bracketed words -/

/-- How a bracket is written, and that no operand ends with an opening one. -/
theorem exists_brackets (family : Bracket) :
    ∃ opener closer, family.opener.toList = [opener] ∧ family.closer.toList = [closer] ∧
      symbol? opener = some (.opening family) ∧ symbol? closer = some (.closing family) ∧
      isSignCharacter opener = false ∧ isSignCharacter closer = false ∧
      endsOperand opener = false := by
  cases family with
  | round => exact ⟨'(', ')', by decide⟩
  | absolute => exact ⟨'[', ']', by decide⟩

/-- A character that is a word of its own and no sign. -/
theorem scanFrom_symbol {c : Char} {kind : Kind} (known : symbol? c = some kind)
    (unsigned : isSignCharacter c = false) (position : Nat) (before : Option Char)
    (rest : List Char) :
    scanFrom position before (c :: rest) =
      .leaf kind (String.ofList [c]) ⟨position, position⟩ ::
        scanFrom (position + 1) (some c) rest := by
  have word : nextWord before c rest = (kind, 0) :=
    nextWord_symbol known fun sign => absurd sign (by simp [unsigned])
  have solid : isGap c = false := (symbol_facts known).1
  rw [scanFrom, solid]
  simp only [Bool.false_eq_true, if_false, word]
  simp [solid]

/-- The words of a text with brackets around it. -/
theorem exists_scan_bracketed (family : Bracket) (code : String) :
    ∃ opening closing before, before.any endsOperand = false ∧
      scan (family.opener ++ code ++ family.closer) =
        .ok (.leaf (.opening family) family.opener opening ::
          (scanFrom 1 before code.toList ++ [.leaf (.closing family) family.closer closing])) := by
  obtain ⟨opener, closer, front, back, opens, closes, noSign, noSign', loose⟩ :=
    exists_brackets family
  have spelled : (family.opener ++ code ++ family.closer).toList =
      opener :: (code.toList ++ [closer]) := by
    simp [front, back]
  have nonempty : family.opener ++ code ++ family.closer ≠ "" := by
    intro empty
    rw [empty] at spelled
    cases spelled
  obtain ⟨last, split⟩ :=
    scanFrom_append_separator (.of_symbol closes) 1 (some opener) code.toList []
  have first : String.ofList [opener] = family.opener := by rw [← front, String.ofList_toList]
  have final : String.ofList [closer] = family.closer := by rw [← back, String.ofList_toList]
  -- An operand ends before the text no more than at the start of a text, so a sign in
  -- front of it is read as it is there.
  refine ⟨⟨0, 0⟩, ⟨(1 + code.toList.length : Nat), (1 + code.toList.length : Nat)⟩,
    some opener, loose, ?_⟩
  rw [scan_eq_of_ne nonempty, spelled, scanFrom_symbol opens noSign, split,
    scanFrom_symbol closes noSign', first, final, scanFrom]
  rfl

/-- What a bracketed text is read as: one group with what the text is read as, further on. -/
theorem parse_bracketed (family : Bracket) {code : String} {f : Forest}
    (scanned : scan code = .ok f.tokens) (words : ∀ t ∈ f.tokens, t.isWord = true) :
    ∃ ts span, AllAlike (Moved 1) ts f.resolved ∧
      ∀ limit, Yields (parseWithin limit (family.opener ++ code ++ family.closer))
        [.group family (combine ts) span] := by
  obtain ⟨opening, closing, before, loose, cut⟩ := exists_scan_bracketed family code
  obtain ⟨f', same, alike⟩ := exists_forest_further scanned words 1 loose
  have read : scan (family.opener ++ code ++ family.closer) =
      .ok (Forest.group family opening closing f' .nil).tokens := by
    rw [cut, Forest.tokens, same, Forest.tokens]
  have grouped : combine [.group family (combine f'.resolved) ⟨opening.start, closing.stop⟩] =
      [.group family (combine f'.resolved) ⟨opening.start, closing.stop⟩] := by
    rw [combine, separate_singleton]
    rfl
  refine ⟨f'.resolved, ⟨opening.start, closing.stop⟩, alike, fun limit => ?_⟩
  rw [parseWithin_eq read, atDepth]
  split
  · exact .inr (congrArg Except.ok grouped)
  · exact .inl rfl

/-! ## The value of a group -/

/-- A bracket applies to the value of what it encloses, and to nothing else. -/
theorem evaluateWithin_family (limit : Nat) (family : Bracket) (ts : List Token) :
    evaluateWithin limit family ts =
      evaluateWithin limit .round ts >>= fun x => pure (family.apply x) := by
  cases limit with
  | zero => rfl
  | succ limit =>
    show (bodyValue _ ts >>= fun x => pure (family.apply x)) =
      bodyValue _ ts >>= pure >>= fun x => pure (family.apply x)
    rw [bind_pure]

open Evaluation

/-- A function of the value: a fault and what was assigned stay. -/
theorem Evaluation.outcome_apply (e : Evaluation Float) (f : Float → Float) (env : Environment) :
    (e >>= fun x => pure (f x)).outcome env =
      ⟨(e.outcome env).result.map f, (e.outcome env).memory⟩ := by
  rw [outcome_eq, outcome_eq, bind_apply]
  rcases e ⟨env, []⟩ with ⟨_ | _, _⟩ <;> rfl

theorem SameResult.map_eq {α β : Type} {n : Nat} {r r' : Except Fault α}
    (same : SameResult (Later n) r r') (f : α → β) :
    r.map f =
      (r'.map f).mapError fun fault => ⟨fault.cause, fault.position.map (· + (n : Int))⟩ := by
  cases same with
  | ok a => rfl
  | error cause place =>
    rw [place]
    rfl

/-! ## Texts -/

/-- Brackets around a text that can be read. If the text has a value, the whole has the
same value in round brackets and the absolute value in square ones. If the text has a
fault, the whole has the same one, one character further on. What is assigned is the same
in either case. -/
theorem calculate_bracketed (family : Bracket) {limits : Limits} {code : String}
    {tree : List Token} (parsed : parseWithin limits.reading code = .ok tree)
    (env : Environment)
    (shallow : (calculateWithin limits (family.opener ++ code ++ family.closer) env).result ≠
      .error .tooDeep) :
    (∀ x, (calculateWithin limits code env).result = .ok x →
      (calculateWithin limits (family.opener ++ code ++ family.closer) env).result =
        .ok (match family with
          | .round => x
          | .absolute => x.abs)) ∧
    (∀ fault, (calculateWithin limits code env).result = .error fault →
      (calculateWithin limits (family.opener ++ code ++ family.closer) env).result =
        .error ⟨fault.cause, fault.position.map (· + 1)⟩) ∧
    (calculateWithin limits (family.opener ++ code ++ family.closer) env).environment =
      (calculateWithin limits code env).environment := by
  obtain ⟨f, scanned, rfl, words⟩ := exists_forest_of_parseWithin parsed
  obtain ⟨ts, span, alike, read⟩ := parse_bracketed family scanned words
  obtain ⟨limit, depth, whole⟩ := exists_depth_of_shallow (read limits.reading) shallow
  rw [evaluateWithin_group, evaluateWithin_family, outcome_apply] at whole
  have alone : calculateWithin limits code env =
      (evaluateWithin (limit + 1) .round (combine f.resolved)).outcome env := by
    rw [calculateWithin, parsed, ← depth]
  have grouped := combine_alike (placing_moved 1) alike
  rcases evaluateWithin_follows (placing_moved 1) grouped limit 1 ⟨env, []⟩ with
    deep | ⟨result, memory⟩
  · rw [whole] at shallow
    exact absurd (congrArg (Except.map family.apply) deep) shallow
  · have outcome : (calculateWithin limits (family.opener ++ code ++ family.closer) env).result =
        ((calculateWithin limits code env).result.map family.apply).mapError
          fun fault => ⟨fault.cause, fault.position.map (· + 1)⟩ := by
      rw [whole, alone]
      exact result.map_eq family.apply
    refine ⟨fun x value => ?_, fun fault refused => ?_, ?_⟩
    · rw [outcome, value]
      cases family <;> rfl
    · rw [outcome, refused]
      rfl
    · rw [whole, alone]
      exact congrArg Memory.environment memory

theorem calculate_bracketed_difference :
    (calculate "[1 - 3 (x = 2)]" .empty).result = .ok 5.0 ∧
      (calculate "[1 - 3 (x = 2)]" .empty).environment =
        (calculate "1 - 3 (x = 2)" .empty).environment := by
  cases parsed : parse "1 - 3 (x = 2)" with
  | error fault =>
    have read : (parse "1 - 3 (x = 2)").isOk = true := by decide +kernel
    rw [parsed] at read
    cases read
  | ok tree =>
    have spelled : Bracket.absolute.opener ++ "1 - 3 (x = 2)" ++ Bracket.absolute.closer =
        "[1 - 3 (x = 2)]" := by decide
    have size : (5.0 : Float) = (-5.0 : Float).abs := by decide +kernel
    have outcome := calculate_bracketed .absolute parsed .empty (by decide +kernel)
    rw [← spelled, size]
    exact ⟨outcome.1 (-5.0) (by decide +kernel), outcome.2.2⟩

end Calculator
