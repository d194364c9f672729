import Calculator.Session
import Calculator.Proofs.Sources

/-!
# The words of a tree

Read from left to right, a tree holds the words of its text, each once, and what was
put between them are implied products that stand between operands. This holds of
every text that can be read, whether it can be evaluated or not.

* `Contains`: the lists of tokens in a tree, at any depth.
* `Token.leaves`, `leavesAll`: the words of a tree from left to right.
* `StandAll.contained`: what a list in a tree stands for is a part of the text.
* `leaves_of_parse`: the leaves of a tree that were not implied are the words of the
  text without the brackets.
-/

namespace Calculator

/-! ## Lists in a tree -/

/-- The lists of tokens in a tree: all of it, and the contents of its groups. -/
inductive Contains (tree : List Token) : List Token → Prop where
  | whole : Contains tree tree
  | contents {ts us : List Token} {family : Bracket} {span : Span} (outer : Contains tree ts)
      (mem : Token.group family us span ∈ ts) : Contains tree us

/-- A list in a tree is all of it or a list in one of its groups. -/
theorem Contains.cases_outer {tree ts : List Token} (h : Contains tree ts) :
    ts = tree ∨ ∃ family us span, Token.group family us span ∈ tree ∧ Contains us ts := by
  induction h with
  | whole => exact .inl rfl
  | contents _ mem ih =>
    rcases ih with rfl | ⟨family, us, span, top, inside⟩
    · exact .inr ⟨_, _, _, mem, .whole⟩
    · exact .inr ⟨family, us, span, top, .contents inside mem⟩

/-! ## Leaves -/

mutual

/-- The words in a token, from left to right. -/
def Token.leaves : Token → List Token
  | .group _ tokens _ => leavesAll tokens
  | t => [t]

/-- The words in the tokens of a list, from left to right. -/
def leavesAll : List Token → List Token
  | [] => []
  | t :: rest => t.leaves ++ leavesAll rest

end

/-- A product that stands nowhere in the text. -/
def Token.isImplied : Token → Bool
  | .leaf (.operator .times) _ span => !span.isKnown
  | _ => false

/-- The token with the name of a function in a call read as a name again. -/
def Token.uncalled : Token → Token
  | .leaf .function lexeme span => .leaf .identifier lexeme span
  | t => t

/-- The words of a tree as the text has them. -/
def writtenWords (tree : List Token) : List Token :=
  ((leavesAll tree).filter (!·.isImplied)).map Token.uncalled

theorem writtenWords_cons (t : Token) (ts : List Token) :
    writtenWords (t :: ts) = writtenWords [t] ++ writtenWords ts := by
  simp [writtenWords, leavesAll]

theorem writtenWords_group (family : Bracket) (ts : List Token) (span : Span) :
    writtenWords [.group family ts span] = writtenWords ts := by
  simp [writtenWords, leavesAll, Token.leaves]

theorem writtenWords_word {t : Token} (plain : t.isPlain = true) (word : t.isWord = true)
    (placed : t.span.isKnown = true) : writtenWords [t] = [t] := by
  cases t with
  | leaf kind lexeme span =>
    have known : span.isKnown = true := placed
    cases kind with
    | function => cases word
    | operator op =>
      cases op <;> simp [writtenWords, leavesAll, Token.leaves, Token.isImplied, known,
        Token.uncalled]
    | _ => rfl
  | pointer level lexeme span => cases plain
  | group family tokens span => cases word

mutual

theorem Token.StandsFor.writtenWords_eq {t : Token} {words : List Token} :
    t.StandsFor words → (∀ w ∈ words, w.span.isKnown = true) →
      writtenWords [t] = words.filter (!·.isBracket)
  | .word plain word, placed => by
    rw [writtenWords_word plain word (placed _ List.mem_cons_self)]
    simp [Token.not_isBracket plain]
  | .function name known, _ => rfl
  | .implied, _ => rfl
  | .bracket family opening closing contents _, placed => by
    have inside := contents.writtenWords_eq fun w hw => placed w (by simp [hw])
    simp [writtenWords_group, inside, Token.isBracket]
  | .grouping contents _ _ _, placed => by
    rw [Token.grouping, writtenWords_group]
    exact contents.writtenWords_eq placed

theorem StandAll.writtenWords_eq {ts words : List Token} :
    StandAll ts words → (∀ w ∈ words, w.span.isKnown = true) →
      writtenWords ts = words.filter (!·.isBracket)
  | .nil, _ => rfl
  | .cons first others, placed => by
    have left := first.writtenWords_eq fun w hw => placed w (by simp [hw])
    have right := others.writtenWords_eq fun w hw => placed w (by simp [hw])
    rw [writtenWords_cons, left, right, List.filter_append]

end

/-! ## What the lists in a tree stand for -/

theorem Token.StandsFor.contents {family : Bracket} {us words : List Token} {span : Span}
    (h : (Token.group family us span).StandsFor words) :
    ∃ part, part <:+: words ∧ StandAll us part ∧ Fenced false us := by
  generalize e : Token.group family us span = t at h
  cases h with
  | word plain word =>
    subst e
    cases word
  | function name known => cases e
  | implied => cases e
  | bracket family' opening closing contents fenced =>
    cases e
    exact ⟨_, ⟨[_], [_], rfl⟩, contents, fenced⟩
  | grouping contents fenced some place =>
    cases e
    exact ⟨_, List.infix_rfl, contents, fenced⟩

namespace StandAll

variable {tree ts words : List Token} {t : Token}

theorem of_mem (h : StandAll ts words) (mem : t ∈ ts) :
    ∃ part, part <:+: words ∧ t.StandsFor part := by
  obtain ⟨front, back, rfl⟩ := List.append_of_mem mem
  obtain ⟨p, q, rfl, _, right⟩ := h.split
  cases right with
  | @cons _ _ part rest first _ => exact ⟨part, ⟨p, rest, List.append_assoc _ _ _⟩, first⟩

/-- A list in a tree stands for a part of the words, and its implied products stand
between operands. -/
theorem contained (h : StandAll tree words) (fenced : Fenced false tree)
    (inside : Contains tree ts) :
    ∃ part, part <:+: words ∧ StandAll ts part ∧ Fenced false ts := by
  induction inside with
  | whole => exact ⟨words, List.infix_rfl, h, fenced⟩
  | contents _ mem ih =>
    obtain ⟨part, within, stand, _⟩ := ih
    obtain ⟨part', within', first⟩ := stand.of_mem mem
    obtain ⟨part'', within'', contents, fenced'⟩ := first.contents
    exact ⟨part'', within''.trans (within'.trans within), contents, fenced'⟩

/-- Only a product that stands for no word stands nowhere in the text. -/
theorem eq_impliedTimes (h : StandAll ts words) (placed : ∀ w ∈ words, w.span.isKnown = true)
    (mem : t ∈ ts) (implied : t.isImplied = true) : t = impliedTimes := by
  obtain ⟨part, within, stands⟩ := h.of_mem mem
  cases stands with
  | word plain word =>
    have known := placed t (within.subset List.mem_cons_self)
    unfold Token.isImplied at implied
    split at implied
    · rw [Token.span] at known
      rw [known] at implied
      cases implied
    · cases implied
  | function name known => cases implied
  | implied => rfl
  | bracket family opening closing contents fenced => cases implied
  | grouping contents fenced some place => cases implied

end StandAll

/-- The neighbours of an implied product are operands. -/
theorem Fenced.neighbours {after : Bool} {front back : List Token}
    (h : Fenced after (front ++ impliedTimes :: back)) :
    front.getLast?.elim after Token.isOperand = true ∧
      back.head?.any Token.isOperand = true := by
  induction front generalizing after with
  | nil =>
    cases h with
    | cons written _ => exact absurd rfl written
    | implied next _ => exact ⟨rfl, next⟩
  | cons t front ih =>
    have last : (t :: front).getLast?.elim after Token.isOperand =
        front.getLast?.elim t.isOperand Token.isOperand := by
      cases front <;> simp [List.getLast?_cons]
    rw [last]
    cases h with
    | cons _ tail => exact ih tail
    | implied _ tail => exact ih tail

/-! ## Texts -/

/-- No word is lost, repeated or moved: the leaves of a tree, without the implied
products, are the words of the text without the brackets. An implied product stands
between two operands of its list. -/
theorem leaves_of_parse {limit : Nat} {code : String} {tree : List Token}
    (h : parseWithin limit code = .ok tree) :
    ∃ tokens, scan code = .ok tokens ∧
      writtenWords tree = tokens.filter (!·.isBracket) ∧
      ∀ ts, Contains tree ts → ∀ front t back, ts = front ++ t :: back → t.isImplied = true →
        front.getLast?.any Token.isOperand = true ∧
          back.head?.any Token.isOperand = true := by
  obtain ⟨tokens, scanned, stand, fenced⟩ := standAll_of_parseWithin h
  have placed : ∀ w ∈ tokens, w.span.isKnown = true := by
    intro w hw
    exact (inOrder_of_scan scanned).isKnown hw
  refine ⟨tokens, scanned, stand.writtenWords_eq placed, ?_⟩
  intro ts inside front t back split implied
  obtain ⟨part, within, stand', fenced'⟩ := stand.contained fenced inside
  have same : t = impliedTimes :=
    stand'.eq_impliedTimes (fun w hw => placed w (within.subset hw)) (by simp [split]) implied
  rw [split, same] at fenced'
  obtain ⟨before, next⟩ := fenced'.neighbours
  cases last : front.getLast? with
  | none =>
    rw [last] at before
    cases before
  | some x =>
    rw [last] at before
    exact ⟨before, next⟩

theorem leaves_of_parse_call :
    ∃ tree tokens, parse "2sqrt(4)!" = .ok tree ∧ scan "2sqrt(4)!" = .ok tokens ∧
      writtenWords tree = tokens.filter (!·.isBracket) ∧
      tree.map Token.isImplied = [false, true, false] := by
  have h : parse "2sqrt(4)!" = .ok [
      .leaf .number "2" ⟨0, 0⟩, impliedTimes,
      .group .round [
        .group .round [.leaf .function "sqrt" ⟨1, 4⟩,
          .group .round [.leaf .number "4" ⟨6, 6⟩] ⟨5, 7⟩] ⟨1, 7⟩,
        .leaf .factorial "!" ⟨8, 8⟩] ⟨1, 8⟩] := by
    decide +kernel
  obtain ⟨tokens, scanned, words, _⟩ := leaves_of_parse h
  exact ⟨_, tokens, h, scanned, words, rfl⟩

end Calculator
