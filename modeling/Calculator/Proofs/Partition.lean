import Calculator.Proofs.Balance
import Calculator.Proofs.Extents

/-!
# How a text is shared out

Every character of a text stands in one word or in a gap between words, and what
stands in a word is its lexeme. White space inside a word is found in numbers only.

* `Span.slice`, `Span.Covers`: the characters of a text in a span.
* `Tiles`: a text as gaps and words in turn. The scanner cuts a text up in this way
  (`tiles_scanFrom`).
* `Partition`: what this says of the spans and lexemes (`Tiles.partition`).
* `scanFrom_word`: each word is taken from the front of the text, at least one
  character of it, and the rest is scanned after it.
-/

namespace Calculator

open Text (isLetter)

/-! ## Characters in a span -/

/-- The characters of a text in a span. -/
def Span.slice (s : Span) (text : List Char) : List Char :=
  (text.take (s.stop + 1).toNat).drop s.start.toNat

/-- The place is in the span. -/
def Span.Covers (s : Span) (i : Nat) : Prop := s.start ≤ i ∧ i ≤ s.stop

theorem slice_append (front inside rest : List Char) (c : Char) :
    Span.slice ⟨front.length, front.length + inside.length⟩ (front ++ c :: (inside ++ rest)) =
      c :: inside := by
  have stop : ((front.length : Int) + inside.length + 1).toNat =
      front.length + (c :: inside).length := by
    rw [List.length_cons]
    omega
  rw [Span.slice, stop, Int.toNat_natCast, ← List.cons_append, List.take_length_add_append,
    List.take_left, List.drop_left]

/-! ## Gaps and words in turn -/

/-- A text that starts at `position`: gaps and words in turn. A word takes up its
first character and those `inside`, and only in a number there are gaps among them. -/
inductive Tiles : Nat → List Char → List Token → Prop where
  | done {position : Nat} : Tiles position [] []
  | gap {position : Nat} {c : Char} {rest : List Char} {words : List Token}
      (blank : isGap c = true) (tail : Tiles (position + 1) rest words) :
      Tiles position (c :: rest) words
  | word {position : Nat} {kind : Kind} {c : Char} {inside rest : List Char}
      {words : List Token} (solid : isGap c = false)
      (gapless : kind ≠ .number → ∀ d ∈ inside, isGap d = false)
      (tail : Tiles (position + inside.length + 1) rest words) :
      Tiles position (c :: (inside ++ rest))
        (.leaf kind (String.ofList ((c :: inside).filter (!isGap ·)))
          ⟨position, position + inside.length⟩ :: words)

/-- A word other than a number goes on without gaps. -/
theorem nextWord_gapless (before : Option Char) (c : Char) (rest : List Char) :
    (nextWord before c rest).1 ≠ .number →
      ∀ d ∈ rest.take (nextWord before c rest).2, isGap d = false := by
  unfold nextWord
  split
  · exact fun other => absurd rfl other
  · split
    · simp
    · split
      · exact fun other => absurd rfl other
      · split
        · obtain ⟨word, back, rfl, letters, front, _⟩ := exists_takeWhile isLetter rest
          rw [front, List.take_left]
          exact fun _ d hd => (letter_facts (List.all_eq_true.1 letters d hd)).1
        · simp

theorem tiles_scanFrom (position : Nat) (before : Option Char) (cs : List Char) :
    Tiles position cs (scanFrom position before cs) := by
  fun_induction scanFrom position before cs with
  | case1 => exact .done
  | case2 position before c rest gap ih => exact .gap gap ih
  | case3 position before c rest gap word extent ih =>
    have size : (rest.take word.2).length = word.2 :=
      List.length_take_of_le (nextWord_le before c rest)
    have tile := @Tiles.word position word.1 c (rest.take word.2) (rest.drop word.2) _
      (Bool.eq_false_iff.2 gap) (nextWord_gapless before c rest) (by rw [size]; exact ih)
    rwa [List.take_append_drop, size] at tile

/-! ## Spans and lexemes -/

/-- Words that a text is shared out to: their spans are in order, what stands in none
of them is a gap, and what stands in a span is the lexeme of the word, with gaps only
in numbers. -/
structure Partition (text : List Char) (words : List Token) : Prop where
  order : InOrder text.length words
  gap_of_outside : ∀ i c, text[i]? = some c → (∀ t ∈ words, ¬ t.span.Covers i) → isGap c = true
  lexeme_ne : ∀ t ∈ words, t.lexeme ≠ ""
  lexeme_eq : ∀ t ∈ words, t.lexeme.toList = (t.span.slice text).filter (!isGap ·)
  gapless : ∀ t ∈ words, t.shape ≠ .leaf .number → ∀ c ∈ t.span.slice text, isGap c = false

namespace Tiles

variable {position : Nat} {cs : List Char} {words : List Token}

theorem gap_of_outside (h : Tiles position cs words) {i : Nat} {c : Char}
    (here : cs[i]? = some c) (outside : ∀ t ∈ words, ¬ t.span.Covers (position + i : Nat)) :
    isGap c = true := by
  induction h generalizing i with
  | done => cases here
  | gap blank tail ih =>
    cases i with
    | zero =>
      injection here with same
      rwa [← same]
    | succ i =>
      refine ih here fun t ht => ?_
      rw [Nat.add_right_comm]
      exact outside t ht
  | @word position kind d inside rest words solid gapless tail ih =>
    have beyond : inside.length < i := by
      refine Nat.lt_of_not_le fun within => outside _ List.mem_cons_self ?_
      simp only [Token.span, Span.Covers]
      omega
    obtain ⟨j, rfl⟩ := Nat.exists_eq_add_of_lt beyond
    refine ih (i := j) ?_ fun t ht => ?_
    · rw [← here, ← List.cons_append, List.getElem?_append_right (by simp)]
      congr 1
      simp
    · have := outside t (List.mem_cons_of_mem _ ht)
      rwa [show position + (inside.length + j + 1) = position + inside.length + 1 + j by omega]
        at this

/-- What stands in the span of a word, if `front` is in front of the text. -/
theorem slice (h : Tiles position cs words) (front : List Char) (place : front.length = position)
    {t : Token} (ht : t ∈ words) :
    ∃ c inside, t.span.slice (front ++ cs) = c :: inside ∧ isGap c = false ∧
      t.lexeme.toList = (c :: inside).filter (!isGap ·) ∧
      (t.shape ≠ .leaf .number → ∀ d ∈ inside, isGap d = false) := by
  induction h generalizing front with
  | done => cases ht
  | @gap position c rest words blank tail ih =>
    rw [List.append_cons]
    exact ih _ (by simp [place]) ht
  | @word position kind d inside rest words solid gapless tail ih =>
    rcases List.mem_cons.1 ht with rfl | ht
    · subst place
      refine ⟨d, inside, slice_append front inside rest d, solid, String.toList_ofList, ?_⟩
      intro other
      exact gapless fun number => other (congrArg Shape.leaf number)
    · rw [← List.cons_append, ← List.append_assoc]
      exact ih _ (by simp [place]; omega) ht

theorem partition (h : Tiles 0 cs words) (order : InOrder cs.length words) :
    Partition cs words where
  order := order
  gap_of_outside i c here outside := h.gap_of_outside here (by simpa using outside)
  lexeme_ne t ht := by
    obtain ⟨c, inside, _, solid, lexeme, _⟩ := h.slice [] rfl ht
    intro empty
    rw [empty, List.filter_cons, solid] at lexeme
    cases lexeme
  lexeme_eq t ht := by
    obtain ⟨c, inside, slice, _, lexeme, _⟩ := h.slice [] rfl ht
    rw [List.nil_append] at slice
    rw [lexeme, slice]
  gapless t ht other := by
    obtain ⟨c, inside, slice, solid, _, gapless⟩ := h.slice [] rfl ht
    rw [List.nil_append] at slice
    rw [slice]
    exact List.forall_mem_cons.2 ⟨solid, gapless other⟩

end Tiles

/-! ## Word after word -/

/-- A word takes up characters at the front of the text, at least one, and the rest
of the words are those of the text after it. -/
theorem scanFrom_word {position : Nat} {before : Option Char} {cs : List Char} {t : Token}
    {words : List Token} (h : scanFrom position before cs = t :: words) :
    ∃ n : Nat, t.span.stop + 1 = position + n ∧ t.span.start < position + n ∧ 0 < n ∧
      n ≤ cs.length ∧ ∃ before', words = scanFrom (position + n) before' (cs.drop n) := by
  fun_induction scanFrom position before cs with
  | case1 => cases h
  | case2 position before c rest gap ih =>
    obtain ⟨n, stop, start, pos, le, before', rfl⟩ := ih h
    exact ⟨n + 1, by omega, by omega, by omega, by simpa using le, before', by
      rw [List.drop_succ_cons]
      congr 1
      omega⟩
  | case3 position before c rest gap word extent ih =>
    injection h with first others
    subst first others
    have short : word.2 ≤ rest.length := nextWord_le before c rest
    exact ⟨word.2 + 1, rfl, by simp only [Token.span]; omega, by omega, by simpa using short,
      extent.getLast?, rfl⟩

/-- There are at most as many words as characters. -/
theorem scanFrom_length_le (position : Nat) (before : Option Char) (cs : List Char) :
    (scanFrom position before cs).length ≤ cs.length := by
  generalize h : scanFrom position before cs = words
  induction words generalizing position before cs with
  | nil => exact Nat.zero_le _
  | cons t words ih =>
    obtain ⟨n, _, _, pos, le, before', others⟩ := scanFrom_word h
    have rest := ih _ _ _ others.symm
    rw [List.length_drop] at rest
    rw [List.length_cons]
    omega

/-- The scanner shares a text out among words and gaps: it refuses no text with a
character in it, the spans of the words are in order and leave out gaps only, the
lexeme of a word is what stands in its span without the gaps, which only a number can
have, and the lexemes together are the text without its gaps. Wherever it is in the
text, it takes at least one character to the end of the next word. -/
theorem scan_partition (code : String) (some : code ≠ "") :
    ∃ tokens, scan code = .ok tokens ∧ Partition code.toList tokens ∧
      (tokens.flatMap fun t => t.lexeme.toList) = code.toList.filter (!isGap ·) ∧
      tokens.length ≤ code.length ∧
      ∀ position before cs t words, scanFrom position before cs = t :: words →
        ∃ n : Nat, t.span.stop + 1 = position + n ∧ t.span.start < position + n ∧ 0 < n ∧
          n ≤ cs.length ∧ ∃ before', words = scanFrom (position + n) before' (cs.drop n) := by
  have scanned := scan_eq_of_ne some
  refine ⟨_, scanned, ?_, scanFrom_lexemes _ _ _, ?_, fun _ _ _ _ _ => scanFrom_word⟩
  · refine (tiles_scanFrom _ _ _).partition ?_
    rw [String.length_toList]
    exact inOrder_of_scan scanned
  · rw [← String.length_toList]
    exact scanFrom_length_le _ _ _

theorem scan_partition_mixed :
    "+ - \t.5 1\t2²ab $" ≠ "" ∧ ∃ tokens, scan "+ - \t.5 1\t2²ab $" = .ok tokens ∧
      Partition "+ - \t.5 1\t2²ab $".toList tokens ∧
      tokens.map Token.lexeme = ["+", "-.51", "2²", "ab", "$"] ∧
      tokens.map Token.span = [⟨0, 0⟩, ⟨2, 8⟩, ⟨10, 11⟩, ⟨12, 13⟩, ⟨15, 15⟩] := by
  have some : "+ - \t.5 1\t2²ab $" ≠ "" := by decide
  obtain ⟨tokens, scanned, shared, _⟩ := scan_partition _ some
  have words : scan "+ - \t.5 1\t2²ab $" = .ok [.leaf (.operator .plus) "+" ⟨0, 0⟩,
      .leaf .number "-.51" ⟨2, 8⟩, .leaf .number "2²" ⟨10, 11⟩, .leaf .identifier "ab" ⟨12, 13⟩,
      .leaf .illegal "$" ⟨15, 15⟩] := by
    decide +kernel
  refine ⟨some, tokens, scanned, shared, ?_⟩
  rw [scanned] at words
  injection words with same
  subst same
  exact ⟨rfl, rfl⟩

end Calculator
