import Calculator.Proofs.Leaves
import Calculator.Proofs.Tidying

/-!
# The texts of words

* `Plain`: characters that a word other than a bracket can consist of: neither gaps
  nor brackets, and at least one (`Cut.plain`).
* `leaf_of_parse`: the words in a tree are leaves with such texts.
* `lexemesAll`: the texts of the words in a tree, one after the other. They are what
  the tree with its brackets is without them (`parts_unbracketed`).
-/

namespace Calculator

/-! ## Characters of words -/

def isBracketCharacter (c : Char) : Bool := isOpeningCharacter c || isClosingCharacter c

/-- The text of a word that is no bracket. -/
structure Plain (cs : List Char) : Prop where
  some : cs ≠ []
  gapless : ∀ c ∈ cs, isGap c = false
  unbracketed : ∀ c ∈ cs, isBracketCharacter c = false

theorem symbol_of_bracket {c : Char} (h : isBracketCharacter c = true) :
    ∃ family, symbol? c = some (.opening family) ∨ symbol? c = some (.closing family) := by
  simp only [isBracketCharacter, isOpeningCharacter, isClosingCharacter, Bool.or_eq_true,
    decide_eq_true_eq] at h
  rcases h with (rfl | rfl) | rfl | rfl
  · exact ⟨.round, .inl rfl⟩
  · exact ⟨.absolute, .inl rfl⟩
  · exact ⟨.round, .inr rfl⟩
  · exact ⟨.absolute, .inr rfl⟩

theorem not_bracket_of_unknown {c : Char} (unknown : symbol? c = none) :
    isBracketCharacter c = false := by
  rw [Bool.eq_false_iff]
  intro bracket
  obtain ⟨family, h | h⟩ := symbol_of_bracket bracket <;>
  · rw [unknown] at h
    cases h

/-- A word is plain unless it is a bracket. -/
theorem Cut.plain {before next : Option Char} {kind : Kind} {cs : List Char}
    (cut : Cut before next kind cs)
    (other : ∀ family, kind ≠ .opening family ∧ kind ≠ .closing family) : Plain cs := by
  cases cut with
  | number numerals =>
    exact ⟨List.cons_ne_nil _ _, fun c hc => (numeral_facts (numerals c hc)).1,
      fun c hc => not_bracket_of_unknown (numeral_facts (numerals c hc)).2.2.2.2⟩
  | @signed sign c cs isSign free numerals =>
    have bracket : isBracketCharacter sign = false := by
      rw [isSignCharacter_iff] at isSign
      rcases isSign with rfl | rfl <;> decide
    exact ⟨List.cons_ne_nil _ _,
      List.forall_mem_cons.2
        ⟨(sign_facts isSign).1, fun c hc => (numeral_facts (numerals c hc)).1⟩,
      List.forall_mem_cons.2
        ⟨bracket, fun c hc => not_bracket_of_unknown (numeral_facts (numerals c hc)).2.2.2.2⟩⟩
  | identifier letters =>
    exact ⟨List.cons_ne_nil _ _, fun c hc => (letter_facts (letters c hc)).1,
      fun c hc => not_bracket_of_unknown (letter_facts (letters c hc)).2.2.2.2⟩
  | @symbol c kind known loose =>
    have bracket : isBracketCharacter c = false := by
      rw [Bool.eq_false_iff]
      intro bracket
      obtain ⟨family, h | h⟩ := symbol_of_bracket bracket <;> rw [known] at h <;> cases h
      · exact (other family).1 rfl
      · exact (other family).2 rfl
    exact ⟨List.cons_ne_nil _ _, by simpa using (symbol_facts known).1, by simpa using bracket⟩
  | illegal gap unknown numeral letter =>
    exact ⟨List.cons_ne_nil _ _, by simpa using gap,
      by simpa using not_bracket_of_unknown unknown⟩

/-! ## Leaves -/

/-- What a leaf of a tree is: an implied product, or a word of the text, which may
have become the name of a function. -/
def FromWord (words : List Token) (l : Token) : Prop :=
  l = impliedTimes ∨
    ∃ kind w, l = .leaf kind w.lexeme w.span ∧ w ∈ words ∧ w.isBracket = false

theorem FromWord.mono {words words' : List Token} {l : Token} (h : FromWord words l)
    (part : words ⊆ words') : FromWord words' l := by
  rcases h with rfl | ⟨kind, w, rfl, hw, bracket⟩
  · exact .inl rfl
  · exact .inr ⟨kind, w, rfl, part hw, bracket⟩

mutual

theorem Token.StandsFor.leaves_from {t : Token} {words : List Token} :
    t.StandsFor words → ∀ l ∈ t.leaves, FromWord words l
  | .word (t := t) plain word, l, hl => by
    cases t with
    | leaf kind lexeme span =>
      have same : l = .leaf kind lexeme span := List.mem_singleton.1 hl
      exact .inr ⟨kind, .leaf kind lexeme span, same, List.mem_cons_self,
        Token.not_isBracket plain⟩
    | pointer level lexeme span => cases word
    | group family tokens span => cases word
  | .function name known, l, hl => by
    have same : l = name.token .function := List.mem_singleton.1 hl
    exact .inr ⟨.function, name.token .identifier, same, List.mem_cons_self, rfl⟩
  | .implied, l, hl => by
    exact .inl (List.mem_singleton.1 hl)
  | .bracket family opening closing contents _, l, hl => by
    rw [Token.leaves] at hl
    exact (contents.leaves_from l hl).mono fun w hw => by simp [hw]
  | .grouping contents _ _ _, l, hl => by
    rw [Token.grouping, Token.leaves] at hl
    exact contents.leaves_from l hl

theorem StandAll.leaves_from {ts words : List Token} :
    StandAll ts words → ∀ l ∈ leavesAll ts, FromWord words l
  | .nil, l, hl => by cases hl
  | .cons first others, l, hl => by
    rw [leavesAll] at hl
    rcases List.mem_append.1 hl with hl | hl
    · exact (first.leaves_from l hl).mono (List.subset_append_left _ _)
    · exact (others.leaves_from l hl).mono (List.subset_append_right _ _)

end

/-- A word in a tree, with a text of its own. -/
def Token.IsPlainLeaf (t : Token) : Prop :=
  ∃ kind lexeme span, t = .leaf kind lexeme span ∧ Plain lexeme.toList

/-- The words in a tree are leaves, and none of them has a gap or a bracket in its
text. -/
theorem leaf_of_parse {limit : Nat} {code : String} {tree : List Token}
    (h : parseWithin limit code = .ok tree) :
    ∀ t ∈ leavesAll tree, t.IsPlainLeaf := by
  obtain ⟨tokens, scanned, stand, _⟩ := standAll_of_parseWithin h
  intro t ht
  rcases stand.leaves_from t ht with rfl | ⟨kind, w, rfl, hw, bracket⟩
  · have text : "*".toList = ['*'] := by decide
    refine ⟨_, "*", _, rfl, ?_⟩
    rw [text]
    exact ⟨List.cons_ne_nil _ _, List.forall_mem_singleton.2 (by decide),
      List.forall_mem_singleton.2 (by decide)⟩
  · obtain ⟨before, next, kind', shape, cut⟩ := cut_of_scan scanned hw
    refine ⟨kind, w.lexeme, w.span, rfl, cut.plain fun family => ?_⟩
    constructor <;>
    · rintro rfl
      cases w with
      | leaf kind lexeme span =>
        cases shape
        cases bracket
      | pointer level lexeme span => cases shape
      | group family tokens span => cases shape

/-! ## Texts of trees -/

/-- The texts of the words in a tree, one after the other. -/
def lexemesAll (ts : List Token) : List Char := (leavesAll ts).flatMap (·.lexeme.toList)

/-- A group is written between two brackets. -/
theorem exists_brackets_of_group (family : Bracket) (ts : List Token) (span : Span) :
    ∃ o c, isOpeningCharacter o = true ∧ isClosingCharacter c = true ∧
      (Token.group family ts span).written = o :: (tidy (spaced (writtenAll ts)) ++ [c]) ∧
      (Token.group family ts span).parts.flatten = o :: ((partsAll ts).flatten ++ [c]) := by
  cases family with
  | round => exact ⟨'(', ')', by decide, by decide, rfl, by simp [Token.parts]⟩
  | absolute => exact ⟨'[', ']', by decide, by decide, rfl, by simp [Token.parts]⟩

theorem forall_leaves_cons {p : Token → Prop} {t : Token} {ts : List Token}
    (h : ∀ l ∈ leavesAll (t :: ts), p l) :
    (∀ l ∈ t.leaves, p l) ∧ ∀ l ∈ leavesAll ts, p l := by
  rw [leavesAll] at h
  exact List.forall_mem_append.1 h

theorem plain_of_leaf {kind : Kind} {lexeme : String} {span : Span}
    (plain : ∀ l ∈ (Token.leaf kind lexeme span).leaves, l.IsPlainLeaf) : Plain lexeme.toList := by
  obtain ⟨_, _, _, same, text⟩ := plain _ (List.mem_singleton.2 rfl)
  cases same
  exact text

theorem not_plain_pointer {number : Nat} {lexeme : String} {span : Span} :
    ¬ ∀ l ∈ (Token.pointer number lexeme span).leaves, l.IsPlainLeaf := by
  intro plain
  obtain ⟨_, _, _, same, _⟩ := plain _ (List.mem_singleton.2 rfl)
  cases same

mutual

theorem parts_unbracketed (t : Token) (plain : ∀ l ∈ t.leaves, l.IsPlainLeaf) :
    t.parts.flatten.filter (!isBracketCharacter ·) = t.leaves.flatMap (·.lexeme.toList) := by
  cases t with
  | leaf kind lexeme span =>
    have kept : lexeme.toList.filter (!isBracketCharacter ·) = lexeme.toList := by
      rw [List.filter_eq_self]
      intro c hc
      rw [(plain_of_leaf plain).unbracketed c hc]
      rfl
    simpa [Token.parts, Token.leaves, Token.lexeme] using kept
  | pointer level lexeme span => exact absurd plain not_plain_pointer
  | group family tokens span =>
    obtain ⟨o, c, opening, closing, _, parts⟩ := exists_brackets_of_group family tokens span
    have inside := partsAll_unbracketed tokens plain
    have left : isBracketCharacter o = true := by rw [isBracketCharacter, opening, Bool.true_or]
    have right : isBracketCharacter c = true := by rw [isBracketCharacter, closing, Bool.or_true]
    rw [parts, List.filter_cons_of_neg (by simp [left]), List.filter_append, inside,
      List.filter_cons_of_neg (by simp [right]), List.filter_nil, List.append_nil]
    rfl

/-- Without its brackets, the text of a tree with nothing between its words is the
texts of the words. -/
theorem partsAll_unbracketed (ts : List Token) (plain : ∀ l ∈ leavesAll ts, l.IsPlainLeaf) :
    (partsAll ts).flatten.filter (!isBracketCharacter ·) = lexemesAll ts := by
  cases ts with
  | nil => rfl
  | cons t ts =>
    obtain ⟨first, others⟩ := forall_leaves_cons plain
    rw [partsAll, List.flatten_append, List.filter_append, parts_unbracketed t first,
      partsAll_unbracketed ts others, lexemesAll, lexemesAll, leavesAll, List.flatMap_append]

end

end Calculator
