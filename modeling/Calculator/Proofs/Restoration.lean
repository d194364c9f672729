import Calculator.Proofs.Balance

/-!
# Outlines can be undone

An outline keeps all of the list it was made of: every pointer tells which level to put
back in its place, and between which brackets.

* `Brackets`: two brackets that belong together.
* `Outlined`: how an outline comes from a list, one token or one group at a time. Every
  outline that is made does (`outlined_of_ofTokens`).
* `Replaces`: what stands in the list for a token at the top of the outline.
* `outline_restored`: the list is put together again, and how its levels are numbered.
-/

namespace Calculator

/-! ## What an open bracket encloses -/

/-- Two brackets of one family around a group. -/
structure Brackets where
  family : Bracket
  opener : String
  closer : String
  opening : Span
  closing : Span

namespace Brackets

def first (b : Brackets) : Token := .leaf (.opening b.family) b.opener b.opening

def last (b : Brackets) : Token := .leaf (.closing b.family) b.closer b.closing

/-- The pointer to a level that holds what stands between the brackets. It has the text of
the opening one and the place of the whole group. -/
def pointer (b : Brackets) (level : Nat) : Token :=
  .pointer level b.opener ⟨b.opening.start, b.closing.stop⟩

end Brackets

def Token.isOpening : Token → Bool
  | .leaf (.opening _) _ _ => true
  | _ => false

theorem Token.not_isOpening {t : Token} (other : t.isBracket = false) : t.isOpening = false := by
  unfold isOpening
  split
  · cases other
  · rfl

/-- The last of the open brackets to be closed. -/
def outermost : Opening → List Opening → Opening
  | inner, [] => inner
  | _, next :: outer => outermost next outer

/-- The enclosed tokens are the front of the list, up to the bracket that closes the
outermost open one, and they count as nested if a bracket opens among them. -/
theorem enclose_front {inner : Opening} {outer : List Opening} {tokens : List Token}
    {e : Enclosed} (h : enclose inner outer tokens = .ok e) :
    (∃ closer rest, tokens = e.tokens ++
      .leaf (.closing (outermost inner outer).bracket) closer e.closing :: rest) ∧
    e.nested = e.tokens.any Token.isOpening := by
  induction inner, outer, tokens using enclose_induction generalizing e with
  | nil inner outer => cases h
  | other inner outer t tokens other ih =>
    rw [enclose_other other] at h
    obtain ⟨e, enclosed, rfl⟩ := exists_of_map_eq_ok h
    obtain ⟨⟨closer, rest, rfl⟩, nested⟩ := ih enclosed
    simp [Enclosed.cons, nested, Token.not_isOpening other]
  | opening inner outer family lexeme span tokens ih =>
    rw [enclose] at h
    obtain ⟨e, enclosed, rfl⟩ := exists_of_map_eq_ok h
    obtain ⟨⟨closer, rest, rfl⟩, _⟩ := ih enclosed
    simp [Enclosed.cons, Token.isOpening, outermost]
  | last inner lexeme span tokens =>
    rw [enclose_last] at h
    cases h
    simp [outermost]
  | next inner next outer lexeme span tokens ih =>
    rw [enclose_next] at h
    obtain ⟨e, enclosed, rfl⟩ := exists_of_map_eq_ok h
    obtain ⟨⟨closer, rest, rfl⟩, nested⟩ := ih enclosed
    simp [Enclosed.cons, Token.isOpening, outermost, nested]
  | wrong inner outer family lexeme span tokens wrong =>
    rw [enclose_wrong wrong] at h
    cases h

/-- The first bracket of a list whose brackets match is an opening one. -/
theorem any_isBracket {tokens : List Token} (matched : bracketFault [] tokens = none) :
    tokens.any Token.isBracket = tokens.any Token.isOpening := by
  induction tokens with
  | nil => rfl
  | cons t tokens ih =>
    cases bracket : t.isBracket with
    | false =>
      rw [bracketFault_other bracket] at matched
      simp [bracket, Token.not_isOpening bracket, ih matched]
    | true =>
      rcases Token.isBracket_cases bracket with
        ⟨family, lexeme, span, rfl⟩ | ⟨family, lexeme, span, rfl⟩
      · simp [Token.isOpening, Token.isBracket]
      · cases matched

/-- A group is the front of the list up to its closing bracket. Its brackets match, and it
counts as nested if there are any. -/
theorem enclosed_group {family : Bracket} {opener : String} {opening : Span}
    {tokens : List Token} {e : Enclosed}
    (h : enclose ⟨family, opener, opening⟩ [] tokens = .ok e) :
    ∃ closer rest, tokens = e.tokens ++ .leaf (.closing family) closer e.closing :: rest ∧
      tokens.drop (e.tokens.length + 1) = rest ∧ bracketFault [] e.tokens = none ∧
      e.nested = e.tokens.any Token.isBracket := by
  have checks := enclose_checks ⟨family, opener, opening⟩ [] tokens
  rw [h] at checks
  have matched : bracketFault [] e.tokens = none := checks.2
  obtain ⟨⟨closer, rest, rfl⟩, nested⟩ := enclose_front h
  exact ⟨closer, rest, rfl, List.drop_length_add_append 1, matched,
    by rw [nested, any_isBracket matched]⟩

/-! ## Outlines, step by step -/

/-- How an outline with pointers to the levels after `level` comes from a list: a token
that is no bracket stays, and a group with its brackets becomes a level and a pointer to
it. Inside the brackets the check of brackets passes. -/
inductive Outlined : Nat → List Token → Outline → Prop where
  | nil {level : Nat} : Outlined level [] ⟨[], []⟩
  | other {level : Nat} {t : Token} {rest : List Token} {o : Outline}
      (other : t.isBracket = false) (tail : Outlined level rest o) :
      Outlined level (t :: rest) { o with top := t :: o.top }
  | group {level : Nat} {inside rest : List Token} {o : Outline} (brackets : Brackets)
      (matched : bracketFault [] inside = none) (tail : Outlined (level + 1) rest o) :
      Outlined level (brackets.first :: (inside ++ brackets.last :: rest))
        ⟨brackets.pointer (level + 1) :: o.top,
          ⟨inside, inside.any Token.isBracket⟩ :: o.groups⟩

theorem outlined_of_ofTokensFrom {level : Nat} {tokens : List Token} {o : Outline}
    (h : Outline.ofTokensFrom level tokens = .ok o) : Outlined level tokens o := by
  induction level, tokens using outline_induction generalizing o with
  | nil level =>
    rw [Outline.ofTokensFrom] at h
    cases h
    exact .nil
  | other level t rest other ih =>
    rw [ofTokensFrom_other other] at h
    obtain ⟨o, outline, rfl⟩ := exists_of_map_eq_ok h
    exact .other other (ih outline)
  | opening level family lexeme span tokens ih =>
    rw [ofTokensFrom_opening] at h
    obtain ⟨e, enclosed, h⟩ := exists_of_bind_eq_ok h
    obtain ⟨o, outline, rfl⟩ := exists_of_map_eq_ok h
    have tail := ih _ outline
    obtain ⟨closer, rest, rfl, after, matched, nested⟩ := enclosed_group enclosed
    rw [after] at tail
    rw [nested]
    exact .group ⟨family, lexeme, closer, span, e.closing⟩ matched tail
  | closing level family lexeme span rest =>
    rw [Outline.ofTokensFrom] at h
    cases h

theorem outlined_of_ofTokens {tokens : List Token} {o : Outline}
    (h : Outline.ofTokens tokens = .ok o) : Outlined 0 tokens o :=
  outlined_of_ofTokensFrom h

/-! ## Putting a list together again -/

/-- The number of the level that a pointer leads to. -/
def Token.level? : Token → Option Nat
  | .pointer level _ _ => some level
  | _ => none

/-- What stands in a list for a token at the top of its outline: the token itself, or the
level that a pointer leads to between its brackets. -/
inductive Replaces (levels : List Level) : Token → List Token → Prop where
  | other {t : Token} (unpointed : t.level? = none) : Replaces levels t [t]
  | group {number : Nat} {l : Level} (brackets : Brackets) (found : levels[number]? = some l) :
      Replaces levels (brackets.pointer number)
        (brackets.first :: (l.tokens ++ [brackets.last]))

namespace Outlined

variable {level : Nat} {tokens : List Token} {o : Outline}

theorem not_isBracket (h : Outlined level tokens o) : ∀ t ∈ o.top, t.isBracket = false := by
  induction h with
  | nil => simp
  | other other _ ih => exact List.forall_mem_cons.2 ⟨other, ih⟩
  | group brackets _ _ ih => exact List.forall_mem_cons.2 ⟨rfl, ih⟩

/-- The pointers count the levels. -/
theorem numbers (h : Outlined level tokens o) (unpointed : ∀ t ∈ tokens, t.level? = none) :
    o.top.filterMap Token.level? = List.range' (level + 1) o.groups.length := by
  induction h with
  | nil => rfl
  | other _ _ ih =>
    simp only [List.forall_mem_cons] at unpointed
    simp [unpointed.1, ih unpointed.2]
  | group brackets _ _ ih =>
    simp only [List.forall_mem_cons, List.forall_mem_append] at unpointed
    simp [Brackets.pointer, Token.level?, ih unpointed.2.2.2, List.range'_succ]

/-- Each token at the top is replaced by what stands in the list for it. -/
theorem pieces (h : Outlined level tokens o) (unpointed : ∀ t ∈ tokens, t.level? = none)
    {levels : List Level} (after : levels.drop (level + 1) = o.groups) :
    ∃ parts, List.Forall₂ (Replaces levels) o.top parts ∧ parts.flatten = tokens := by
  induction h with
  | nil => exact ⟨[], .nil, rfl⟩
  | @other level t rest o other _ ih =>
    simp only [List.forall_mem_cons] at unpointed
    obtain ⟨parts, replaced, rfl⟩ := ih unpointed.2 after
    exact ⟨[t] :: parts, .cons (.other unpointed.1) replaced, rfl⟩
  | @group level inside rest o brackets _ _ ih =>
    simp only [List.forall_mem_cons, List.forall_mem_append] at unpointed
    have found : levels[level + 1]? = some ⟨inside, inside.any Token.isBracket⟩ := by
      have first := congrArg List.head? after
      rwa [List.head?_drop] at first
    have later : levels.drop (level + 1 + 1) = o.groups := by
      rw [← List.drop_drop, after]
      rfl
    obtain ⟨parts, replaced, rfl⟩ := ih unpointed.2.2.2 later
    exact ⟨_ :: parts, .cons (.group brackets found) replaced, by simp⟩

theorem groups_matched (h : Outlined level tokens o) :
    ∀ l ∈ o.groups, bracketFault [] l.tokens = none ∧ l.nested = l.tokens.any Token.isBracket := by
  induction h with
  | nil => simp
  | other _ _ ih => exact ih
  | group brackets matched _ ih => exact List.forall_mem_cons.2 ⟨⟨matched, rfl⟩, ih⟩

end Outlined

/-- The levels of an outline are numbered from zero. Outside all brackets there is no
bracket left but one pointer to each other level, in their order; with what they lead to
in their places, the list is as it was. What is on a level other than zero has matching
brackets itself, and counts as nested if there are any. -/
theorem outline_restored {tokens : List Token} {o : Outline}
    (unpointed : ∀ t ∈ tokens, t.level? = none) (h : Outline.ofTokens tokens = .ok o) :
    ∃ n, (∀ number, (∃ l, o.levels[number]? = some l) ↔ number ≤ n) ∧
      o.levels[0]? = some ⟨o.top, false⟩ ∧ (∀ t ∈ o.top, t.isBracket = false) ∧
      o.top.filterMap Token.level? = List.range' 1 n ∧
      (∃ parts, List.Forall₂ (Replaces o.levels) o.top parts ∧ parts.flatten = tokens) ∧
      ∀ number l, 1 ≤ number → o.levels[number]? = some l →
        bracketFault [] l.tokens = none ∧
        (l.nested = true ↔ ∃ t ∈ l.tokens, t.isBracket = true) := by
  have outlined := outlined_of_ofTokens h
  refine ⟨o.groups.length, fun number => ?_, rfl, outlined.not_isBracket,
    outlined.numbers unpointed, outlined.pieces unpointed rfl, fun number l positive found => ?_⟩
  · rw [← Option.isSome_iff_exists, Option.isSome_iff_ne_none, ne_eq, List.getElem?_eq_none_iff,
      Outline.levels, List.length_cons]
    omega
  · obtain ⟨number, rfl⟩ := Nat.exists_eq_add_of_le' positive
    have mem : l ∈ o.groups := List.mem_of_getElem? found
    obtain ⟨matched, nested⟩ := outlined.groups_matched l mem
    exact ⟨matched, by simp [nested]⟩

theorem outline_restored_adjacent :
    let tokens := scanFrom 0 none "2()[(1)-x]".toList
    let o : Outline := ⟨
      [.leaf .number "2" ⟨0, 0⟩, .pointer 1 "(" ⟨1, 2⟩, .pointer 2 "[" ⟨3, 9⟩],
      [⟨[], false⟩,
        ⟨[.leaf (.opening .round) "(" ⟨4, 4⟩, .leaf .number "1" ⟨5, 5⟩,
          .leaf (.closing .round) ")" ⟨6, 6⟩, .leaf (.operator .minus) "-" ⟨7, 7⟩,
          .leaf .identifier "x" ⟨8, 8⟩], true⟩]⟩
    (∀ t ∈ tokens, t.level? = none) ∧ Outline.ofTokens tokens = .ok o ∧
      ∃ parts, List.Forall₂ (Replaces o.levels) o.top parts ∧ parts.flatten = tokens := by
  intro tokens o
  have unpointed : ∀ t ∈ tokens, t.level? = none := by decide +kernel
  have outline : Outline.ofTokens tokens = .ok o := by decide +kernel
  obtain ⟨n, _, _, _, _, parts, _⟩ := outline_restored unpointed outline
  exact ⟨unpointed, outline, parts⟩

end Calculator
