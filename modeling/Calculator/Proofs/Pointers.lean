import Calculator.Proofs.Balance

/-!
# Pointers and direct recursion

A list is cut into levels with pointers between them, and the pointers are followed
back. On matched brackets this is the same as direct recursion on the brackets, for
every list and every depth.

* `Forest.exists_of_pointer`: which group a pointer of an outline stands for.
* `Outline.Faithful`: pointers lead to the levels of their groups, and whether a
  level counts as nested makes no difference.
* `resolve_matched`: matched brackets are resolved to `Forest.resolved`.
-/

namespace Calculator

namespace Forest

/-! ## The outline of a forest -/

theorem groups_append (f g : Forest) : (f.append g).groups = f.groups ++ g.groups := by
  induction f with
  | nil => rfl
  | word t plain rest ih => exact ih
  | group family opening closing inside rest _ ih => simp [append, groups, ih]

/-- A pointer stands for the group in its place, and its number counts the groups up
to that one. -/
theorem exists_of_pointer {f : Forest} {start level : Nat} {lexeme : String} {span : Span}
    {front back : List Token} (h : f.top start = front ++ .pointer level lexeme span :: back) :
    ∃ (before inside after : Forest) (family : Bracket) (opening closing : Span),
      f = before.append (.group family opening closing inside after) ∧
      front = before.top start ∧ level = start + before.groups.length + 1 ∧
      lexeme = family.opener ∧ span = ⟨opening.start, closing.stop⟩ := by
  induction f generalizing start front with
  | nil => simp [top] at h
  | word t plain rest ih =>
    cases front with
    | nil =>
      injection h with h _
      subst h
      cases plain
    | cons x front =>
      injection h with hx h
      obtain ⟨before, inside, after, family, opening, closing, rfl, rfl, number, same⟩ := ih h
      exact ⟨.word t plain before, inside, after, family, opening, closing, rfl, by rw [top, hx],
        number, same⟩
  | group family opening closing inside rest _ ih =>
    cases front with
    | nil =>
      injection h with h _
      injection h with number text place
      exact ⟨.nil, inside, rest, family, opening, closing, rfl, rfl, number.symm, text.symm,
        place.symm⟩
    | cons x front =>
      injection h with hx h
      obtain ⟨before, inside', after, family', opening', closing', rfl, rfl, number, same⟩ := ih h
      refine ⟨.group family opening closing inside before, inside', after, family', opening',
        closing', rfl, by rw [top, hx], ?_, same⟩
      simp only [groups, List.length_cons]
      omega

/-- The level of a group is counted from the one at the top. -/
theorem level_of_group {before inside after : Forest} {family : Bracket}
    {opening closing : Span} {o : Outline}
    (h : o.groups = (before.append (.group family opening closing inside after)).groups) :
    o.levels[before.groups.length + 1]? = some ⟨inside.tokens, inside.hasGroup⟩ := by
  simp [Outline.levels, h, groups_append, groups]

theorem exists_of_mem_groups {f : Forest} {l : Level} (h : l ∈ f.groups) :
    ∃ inside : Forest, l = ⟨inside.tokens, inside.hasGroup⟩ := by
  induction f with
  | nil => cases h
  | word t plain rest ih => exact ih h
  | group family opening closing inside rest _ ih =>
    rcases List.mem_cons.1 h with rfl | h
    · exact ⟨inside, rfl⟩
    · exact ih h

/-! ## Levels without brackets -/

theorem depth_of_not_hasGroup {f : Forest} (h : f.hasGroup = false) : f.depth = 1 := by
  induction f with
  | nil => rfl
  | word t plain rest ih => exact ih h
  | group family opening closing inside rest _ _ => cases h

/-- Resolving a list without brackets changes nothing. -/
theorem resolve_of_not_hasGroup {f : Forest} (h : f.hasGroup = false) (limit : Nat) :
    resolve (limit + 1) f.tokens = .ok f.tokens := by
  rw [f.resolve_eq, depth_of_not_hasGroup h, resolved_of_not_hasGroup h, atDepth, if_pos (by omega)]

end Forest

/-! ## Faithful outlines -/

/-- The outline of a list tells where its groups are: every pointer leads to a level
there is, which holds what the group in its place encloses. That a level without
brackets is not outlined again makes no difference. -/
structure Outline.Faithful (o : Outline) (tokens : List Token) : Prop where
  pointers : ∀ front level lexeme span back, o.top = front ++ .pointer level lexeme span :: back →
    ∃ (before inside after : Forest) (family : Bracket) (opening closing : Span),
      tokens = before.tokens ++ .leaf (.opening family) family.opener opening ::
        (inside.tokens ++ .leaf (.closing family) family.closer closing :: after.tokens) ∧
      front = before.top 0 ∧ lexeme = family.opener ∧ span = ⟨opening.start, closing.stop⟩ ∧
      o.levels[level]? = some ⟨inside.tokens, inside.hasGroup⟩
  unnested : ∀ l ∈ o.groups, ∀ limit,
    (if l.nested then resolve (limit + 1) l.tokens else .ok l.tokens) =
      resolve (limit + 1) l.tokens

theorem Forest.faithful (f : Forest) : Outline.Faithful ⟨f.top 0, f.groups⟩ f.tokens := by
  constructor
  · intro front level lexeme span back h
    obtain ⟨before, inside, after, family, opening, closing, rfl, rfl, rfl, text, place⟩ :=
      exists_of_pointer h
    refine ⟨before, inside, after, family, opening, closing, ?_, rfl, text, place, ?_⟩
    · rw [tokens_append, tokens]
    · rw [Nat.zero_add]
      exact level_of_group rfl
  · intro l hl limit
    obtain ⟨inside, rfl⟩ := exists_of_mem_groups hl
    split
    · rfl
    · rename_i flat
      exact (resolve_of_not_hasGroup (Bool.eq_false_iff.2 flat) limit).symm

/-- What an outline cuts out of a forest is a forest again, at any depth. -/
theorem exists_forest_of_inner {f : Forest} {us : List Token} (inner : Inner f.tokens us) :
    ∃ g : Forest, us = g.tokens := by
  have of_group : ∀ {g : Forest} {o : Outline} {l : Level},
      Outline.ofTokens g.tokens = .ok o → l ∈ o.groups → ∃ h : Forest, l.tokens = h.tokens := by
    intro g o l outline group
    rw [ofTokens_forest] at outline
    cases outline
    obtain ⟨inside, rfl⟩ := Forest.exists_of_mem_groups group
    exact ⟨inside, rfl⟩
  induction inner with
  | top outline group => exact of_group outline group
  | deeper _ outline group ih =>
    obtain ⟨g, rfl⟩ := ih
    exact of_group outline group

/-! ## Direct recursion -/

theorem resolveLevelWithin_zero {tokens : List Token} {o : Outline}
    (outline : Outline.ofTokens tokens = .ok o) (limit : Nat) :
    o.resolveLevelWithin limit 0 = resolve (limit + 1) tokens := by
  rw [resolve, outline]
  rfl

/-- Following pointers is direct recursion on the brackets. The tokens of a list with
matched brackets stay as they are outside the brackets, and each outermost group
becomes one token with the grouped contents, as `Forest.resolved` says; the bound
on the depth only decides whether there is a result. Every outline that is made on
the way is faithful. -/
theorem resolve_matched {tokens : List Token}
    (matchable : ∀ t ∈ tokens, t.isMatchable = true) (matched : bracketFault [] tokens = none) :
    ∃ f : Forest, tokens = f.tokens ∧
      f.depth ≤ bracketDepth 0 tokens + tokens.countP Token.isPower + 1 ∧
      (∀ limit, resolve limit tokens =
        if f.depth ≤ limit then .ok f.resolved else .error .tooDeep) ∧
      (∃ o, Outline.ofTokens tokens = .ok o ∧ ∀ limit, o.resolveLevelWithin limit 0 =
        if f.depth ≤ limit + 1 then .ok f.resolved else .error .tooDeep) ∧
      ∀ us, us = tokens ∨ Inner tokens us →
        ∃ o, Outline.ofTokens us = .ok o ∧ o.Faithful us := by
  obtain ⟨f, rfl⟩ := exists_forest_of_bracketFault matchable matched
  refine ⟨f, rfl, ?_, f.resolve_eq, ?_, ?_⟩
  · have depth := f.parsing_depth_le
    omega
  · have outline := ofTokens_forest f
    exact ⟨_, outline, fun limit => (resolveLevelWithin_zero outline limit).trans (f.resolve_eq _)⟩
  · intro us inside
    have forest : ∃ g : Forest, us = g.tokens := by
      rcases inside with rfl | inner
      · exact ⟨f, rfl⟩
      · exact exists_forest_of_inner inner
    obtain ⟨g, rfl⟩ := forest
    exact ⟨_, ofTokens_forest g, g.faithful⟩

theorem resolve_matched_nested :
    ∃ f : Forest, scanFrom 0 none "2[(1)-x]".toList = f.tokens ∧
      f.resolved = [
        .leaf .number "2" ⟨0, 0⟩,
        .group .absolute [.group .round [.leaf .number "1" ⟨3, 3⟩] ⟨2, 4⟩,
          .leaf (.operator .minus) "-" ⟨5, 5⟩, .leaf .identifier "x" ⟨6, 6⟩] ⟨1, 7⟩] := by
  have matchable : ∀ t ∈ scanFrom 0 none "2[(1)-x]".toList, t.isMatchable = true := by
    decide +kernel
  have matched : bracketFault [] (scanFrom 0 none "2[(1)-x]".toList) = none := by
    decide +kernel
  have read : resolve 2 (scanFrom 0 none "2[(1)-x]".toList) = .ok [
      .leaf .number "2" ⟨0, 0⟩,
      .group .absolute [.group .round [.leaf .number "1" ⟨3, 3⟩] ⟨2, 4⟩,
        .leaf (.operator .minus) "-" ⟨5, 5⟩, .leaf .identifier "x" ⟨6, 6⟩] ⟨1, 7⟩] := by
    decide +kernel
  obtain ⟨f, same, _, resolved, _⟩ := resolve_matched matchable matched
  rw [resolved 2] at read
  split at read
  · injection read with read
    exact ⟨f, same, read⟩
  · cases read

end Calculator
