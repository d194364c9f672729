import Calculator.Session
import Calculator.Proofs.Lexemes
import Calculator.Proofs.Places

/-!
# Dumps tell trees apart

A dump has a line for each token of a tree, the tokens of a group below it and
further in. Nothing but the indentation says where a group ends, and that is enough.

* `preorderAll`: the tokens of a tree from top to bottom, with their levels.
* `lines_dump`: the lines of a dump are those of these tokens.
* `line_injective`: a line tells the level, the sort and the text of its token.
* `unplacedAll_of_lines`: the lines tell where each group ends.
* `dump_faithful`: trees with the same dump differ in their places only.
-/

namespace Calculator

/-! ## Tokens from top to bottom -/

mutual

/-- A token that stands on the given level, before the tokens inside it. -/
def Token.preorder (level : Nat) : Token → List (Nat × Token)
  | .group family tokens span =>
      (level, .group family tokens span) :: preorderAll (level + 1) tokens
  | t => [(level, t)]

/-- The tokens of a list, each before those inside it, with their levels. -/
def preorderAll (level : Nat) : List Token → List (Nat × Token)
  | [] => []
  | t :: rest => t.preorder level ++ preorderAll level rest

end

/-- What the line of a token says of it besides its sort. -/
def Token.detail : Token → String
  | .leaf _ lexeme _ | .pointer _ lexeme _ => "(" ++ lexeme ++ ")"
  | .group family _ _ => " -> \x7b" ++ family.label ++ "\x7d"

/-- The line of a token on a level. -/
def Token.line (level : Nat) (t : Token) : String :=
  indentation level ++ (t.shape.label ++ t.detail)

/-- The line of a token with its level. -/
def entryLine (e : Nat × Token) : String := e.2.line e.1

theorem head_preorder (level : Nat) (t : Token) :
    ∃ es, t.preorder level = (level, t) :: es := by
  cases t with
  | leaf kind lexeme span => exact ⟨[], rfl⟩
  | pointer number lexeme span => exact ⟨[], rfl⟩
  | group family tokens span => exact ⟨preorderAll (level + 1) tokens, rfl⟩

mutual

theorem dumpLines_eq_preorder (level : Nat) (t : Token) :
    t.dumpLines level = (t.preorder level).map entryLine := by
  cases t with
  | leaf kind lexeme span =>
    simp [Token.dumpLines, Token.preorder, entryLine, Token.line, Token.shape, Token.detail,
      Shape.label, String.append_assoc]
  | pointer number lexeme span =>
    simp [Token.dumpLines, Token.preorder, entryLine, Token.line, Token.shape, Token.detail,
      String.append_assoc]
  | group family tokens span =>
    simp [Token.dumpLines, Token.preorder, entryLine, Token.line, Token.shape, Token.detail,
      String.append_assoc, dumpAll_eq_preorderAll (level + 1) tokens]

theorem dumpAll_eq_preorderAll (level : Nat) (ts : List Token) :
    dumpAll level ts = (preorderAll level ts).map entryLine := by
  cases ts with
  | nil => rfl
  | cons t ts =>
    rw [dumpAll, preorderAll, List.map_append, dumpLines_eq_preorder level t,
      dumpAll_eq_preorderAll level ts]

end

mutual

theorem mem_preorder {level : Nat} {t : Token} {e : Nat × Token} (h : e ∈ t.preorder level) :
    e.2 ∈ t.leaves ∨ e.2.shape = .group := by
  cases t with
  | leaf kind lexeme span =>
    cases List.mem_singleton.1 h
    exact .inl (List.mem_singleton.2 rfl)
  | pointer number lexeme span =>
    cases List.mem_singleton.1 h
    exact .inl (List.mem_singleton.2 rfl)
  | group family tokens span =>
    rcases List.mem_cons.1 h with rfl | h
    · exact .inr rfl
    · exact mem_preorderAll h

/-- A token in a tree is one of the words or a group. -/
theorem mem_preorderAll {level : Nat} {ts : List Token} {e : Nat × Token}
    (h : e ∈ preorderAll level ts) : e.2 ∈ leavesAll ts ∨ e.2.shape = .group := by
  cases ts with
  | nil => cases h
  | cons t ts =>
    rw [preorderAll] at h
    rw [leavesAll, List.mem_append]
    rcases List.mem_append.1 h with h | h
    · exact (mem_preorder h).imp_left .inl
    · exact (mem_preorderAll h).imp_left .inr

end

/-! ## What a line tells -/

/-- There is one way to cut a text in two where the characters of a class end. -/
theorem split_unique {p : Char → Bool} {as bs cs ds : List Char} (ha : ∀ c ∈ as, p c = true)
    (hb : ∀ c ∈ bs.head?, p c = false) (hc : ∀ c ∈ cs, p c = true)
    (hd : ∀ c ∈ ds.head?, p c = false) (same : as ++ bs = cs ++ ds) : as = cs ∧ bs = ds := by
  have start : ∀ {xs ys : List Char}, (∀ c ∈ xs, p c = true) → (∀ c ∈ ys.head?, p c = false) →
      (xs ++ ys).takeWhile p = xs := by
    intro xs ys hx hy
    rw [List.takeWhile_append_of_pos hx]
    cases ys with
    | nil => rw [List.takeWhile_nil, List.append_nil]
    | cons y ys => rw [List.takeWhile_cons_of_neg (by simp [hy y rfl]), List.append_nil]
  have first : as = cs := by rw [← start ha hb, same, start hc hd]
  exact ⟨first, List.append_cancel_left (first ▸ same)⟩

/-- The sorts are named in capital letters. -/
theorem label_upper (s : Shape) :
    s.label.toList ≠ [] ∧ ∀ c ∈ s.label.toList, c.isUpper = true := by
  have all : ∀ s ∈ Shape.all,
      s.label.toList ≠ [] ∧ s.label.toList.all Char.isUpper = true := by decide
  exact (all s s.mem_all).imp_right List.all_eq_true.1

theorem detail_head (t : Token) : ∀ c ∈ t.detail.toList.head?, c.isUpper = false := by
  cases t <;> simp [Token.detail]

theorem toList_line (level : Nat) (t : Token) :
    (t.line level).toList =
      List.replicate (2 * level) ' ' ++ (t.shape.label.toList ++ t.detail.toList) := by
  simp [Token.line, indentation]

/-- A line tells the level, the sort and the text of its token. -/
theorem line_injective {level level' : Nat} {t u : Token}
    (same : t.line level = u.line level') :
    level = level' ∧ t.shape = u.shape ∧ t.detail = u.detail := by
  have indented : ∀ n, ∀ c ∈ List.replicate (2 * n) ' ', (c == ' ') = true := by
    intro n c hc
    rw [List.eq_of_mem_replicate hc]
    rfl
  have named : ∀ v : Token, ∀ c ∈ (v.shape.label.toList ++ v.detail.toList).head?,
      (c == ' ') = false := by
    intro v c hc
    obtain ⟨some, upper⟩ := label_upper v.shape
    rw [List.head?_append_of_ne_nil _ some] at hc
    have capital := upper c (List.mem_of_mem_head? hc)
    rw [beq_eq_false_iff_ne]
    rintro rfl
    cases capital
  have texts : (t.line level).toList = (u.line level').toList := by rw [same]
  rw [toList_line, toList_line] at texts
  obtain ⟨indent, rest⟩ := split_unique (indented level) (named t) (indented level') (named u) texts
  obtain ⟨label, detail⟩ := split_unique (label_upper t.shape).2 (detail_head t)
    (label_upper u.shape).2 (detail_head u) rest
  refine ⟨?_, Shape.label_injective (String.toList_inj.1 label), String.toList_inj.1 detail⟩
  have length := congrArg List.length indent
  rw [List.length_replicate, List.length_replicate] at length
  omega

theorem lexeme_of_detail {lexeme lexeme' : String}
    (same : "(" ++ lexeme ++ ")" = "(" ++ lexeme' ++ ")") : lexeme = lexeme' := by
  have texts := congrArg String.toList same
  simpa [String.toList_inj] using texts

theorem family_of_detail {family family' : Bracket}
    (same : " -> \x7b" ++ family.label ++ "\x7d" = " -> \x7b" ++ family'.label ++ "\x7d") :
    family = family' := by
  cases family <;> cases family' <;> first | rfl | exact absurd same (by decide)

/-! ## What the lines tell -/

/-- What comes next, if anything, stands above the given level. -/
def Above (level : Nat) (es : List (Nat × Token)) : Prop := ∀ e ∈ es.head?, e.1 < level

theorem Above.succ {level : Nat} {es : List (Nat × Token)} (above : Above level es)
    (ts : List Token) : Above (level + 1) (preorderAll level ts ++ es) := by
  intro e he
  cases ts with
  | nil => exact Nat.lt_succ_of_lt (above e he)
  | cons t ts =>
    obtain ⟨inside, head⟩ := head_preorder level t
    rw [preorderAll, head] at he
    cases he
    exact Nat.lt_succ_self level

/-- Nothing above a level has the line of a token of the level. -/
theorem Above.ne {level : Nat} {es fs : List (Nat × Token)} {t : Token}
    (above : Above level es) : es.map entryLine ≠ entryLine (level, t) :: fs.map entryLine := by
  intro same
  cases es with
  | nil => cases same
  | cons e es =>
    rw [List.map_cons] at same
    injection same with first
    have lower : e.1 < level := above e rfl
    have level_eq : e.1 = level := (line_injective first).1
    omega

mutual

theorem unplaced_of_lines (level : Nat) (t u : Token) (es fs : List (Nat × Token))
    (plain : ∀ l ∈ t.leaves, l.IsPlainLeaf) (plain' : ∀ l ∈ u.leaves, l.IsPlainLeaf)
    (above : Above (level + 1) es) (above' : Above (level + 1) fs)
    (same : (t.preorder level ++ es).map entryLine = (u.preorder level ++ fs).map entryLine) :
    t.unplaced = u.unplaced ∧ es.map entryLine = fs.map entryLine := by
  have first : t.line level = u.line level := by
    obtain ⟨inside, head⟩ := head_preorder level t
    obtain ⟨inside', head'⟩ := head_preorder level u
    rw [head, head'] at same
    exact (List.cons.inj same).1
  obtain ⟨-, shape, detail⟩ := line_injective first
  cases t with
  | pointer number lexeme span => exact absurd plain not_plain_pointer
  | leaf kind lexeme span =>
    cases u with
    | pointer number lexeme span => exact absurd plain' not_plain_pointer
    | group family tokens span => cases shape
    | leaf kind' lexeme' span' =>
      cases shape
      rw [Token.unplaced, Token.unplaced, lexeme_of_detail detail]
      exact ⟨rfl, (List.cons.inj same).2⟩
  | group family tokens span =>
    cases u with
    | pointer number lexeme span => exact absurd plain' not_plain_pointer
    | leaf kind lexeme span => cases shape
    | group family' tokens' span' =>
      -- What follows the group stands above its contents, so these end together.
      obtain ⟨contents, rest⟩ := unplacedAll_of_lines (level + 1) tokens tokens' es fs plain plain'
        above above' (List.cons.inj same).2
      rw [Token.unplaced, Token.unplaced, family_of_detail detail, contents]
      exact ⟨rfl, rest⟩

/-- The lines of tokens of a level, and of what comes after them, tell the tokens but for
their places. -/
theorem unplacedAll_of_lines (level : Nat) (ts us : List Token) (es fs : List (Nat × Token))
    (plain : ∀ l ∈ leavesAll ts, l.IsPlainLeaf) (plain' : ∀ l ∈ leavesAll us, l.IsPlainLeaf)
    (above : Above level es) (above' : Above level fs)
    (same : (preorderAll level ts ++ es).map entryLine =
      (preorderAll level us ++ fs).map entryLine) :
    unplacedAll ts = unplacedAll us ∧ es.map entryLine = fs.map entryLine := by
  cases ts with
  | nil =>
    cases us with
    | nil => exact ⟨rfl, same⟩
    | cons u us =>
      obtain ⟨inside, head⟩ := head_preorder level u
      rw [preorderAll, preorderAll, head] at same
      exact absurd same above.ne
  | cons t ts =>
    cases us with
    | nil =>
      obtain ⟨inside, head⟩ := head_preorder level t
      rw [preorderAll, preorderAll, head] at same
      exact absurd same.symm above'.ne
    | cons u us =>
      obtain ⟨first, others⟩ := forall_leaves_cons plain
      obtain ⟨first', others'⟩ := forall_leaves_cons plain'
      rw [preorderAll, preorderAll, List.append_assoc, List.append_assoc] at same
      obtain ⟨token, rest⟩ := unplaced_of_lines level t u _ _ first first' (above.succ ts)
        (above'.succ us) same
      obtain ⟨tokens, rest⟩ := unplacedAll_of_lines level ts us es fs others others' above above'
        rest
      rw [unplacedAll, unplacedAll, token, tokens]
      exact ⟨rfl, rest⟩

end

/-! ## Dumps -/

/-- The lines of a text; the empty text has none. -/
def lines (text : String) : List String :=
  if text = "" then [] else (text.toList.splitOn '\n').map String.ofList

/-- Lines that are put together are found again. -/
theorem lines_intercalate {ls : List String} (some : ∀ l ∈ ls, l ≠ "")
    (single : ∀ l ∈ ls, '\n' ∉ l.toList) : lines ("\n".intercalate ls) = ls := by
  cases ls with
  | nil => rfl
  | cons l ls =>
    have found : ("\n".intercalate (l :: ls)).toList.splitOn '\n' =
        (l :: ls).map String.toList := by
      rw [String.toList_intercalate]
      exact List.splitOn_intercalate '\n' (by simpa using single) (by simp)
    have text : "\n".intercalate (l :: ls) ≠ "" := by
      intro empty
      rw [empty] at found
      have first : [] = l.toList := (List.cons.inj found).1
      exact some l List.mem_cons_self (String.toList_inj.1 first.symm)
    rw [lines, if_neg text, found, List.map_map]
    simp

theorem line_ne_empty (level : Nat) (t : Token) : t.line level ≠ "" := by
  intro empty
  have texts := congrArg String.toList empty
  rw [toList_line] at texts
  simp [(label_upper t.shape).1] at texts

/-- Neither a word of a tree nor a group has more than one line. -/
theorem newline_not_mem_line (level : Nat) {t : Token} (word : t.IsPlainLeaf ∨ t.shape = .group) :
    '\n' ∉ (t.line level).toList := by
  have label : '\n' ∉ t.shape.label.toList := by
    intro h
    cases (label_upper t.shape).2 _ h
  have detail : '\n' ∉ t.detail.toList := by
    cases t with
    | leaf kind lexeme span =>
      rcases word with ⟨_, _, _, same, plain⟩ | group
      · cases same
        intro h
        simp [Token.detail] at h
        cases plain.gapless _ h
      · cases group
    | pointer number lexeme span =>
      rcases word with ⟨_, _, _, same, _⟩ | group
      · cases same
      · cases group
    | group family tokens span => cases family <;> simp [Token.detail] <;> decide
  rw [toList_line]
  simp [label, detail]

/-- The lines of a dump are those of the tokens of the tree. -/
theorem lines_dump (level : Nat) {ts : List Token} (plain : ∀ l ∈ leavesAll ts, l.IsPlainLeaf) :
    lines (dump ts level) = (preorderAll level ts).map entryLine := by
  rw [dump, dumpAll_eq_preorderAll]
  refine lines_intercalate ?_ ?_ <;> rw [List.forall_mem_map] <;> intro e he
  · exact line_ne_empty e.1 e.2
  · exact newline_not_mem_line e.1 ((mem_preorderAll he).imp_left (plain e.2))

/-- The dump of a tree of words tells the tree but for the places. -/
theorem unplaced_of_dump (level : Nat) {ts us : List Token}
    (plain : ∀ l ∈ leavesAll ts, l.IsPlainLeaf) (plain' : ∀ l ∈ leavesAll us, l.IsPlainLeaf)
    (same : dump ts level = dump us level) : ts.map Token.unplaced = us.map Token.unplaced := by
  have sameLines := congrArg lines same
  rw [lines_dump level plain, lines_dump level plain'] at sameLines
  have top : Above level [] := by simp [Above]
  have trees := unplacedAll_of_lines level ts us [] [] plain plain' top top
    (by simpa using sameLines)
  rw [← unplacedAll_eq_map, ← unplacedAll_eq_map]
  exact trees.1

mutual

theorem dumpLines_unplaced (level : Nat) (t : Token) :
    t.unplaced.dumpLines level = t.dumpLines level := by
  cases t with
  | leaf kind lexeme span => rfl
  | pointer number lexeme span => rfl
  | group family tokens span =>
    rw [Token.unplaced, Token.dumpLines, Token.dumpLines, dumpAll_unplaced (level + 1) tokens]

theorem dumpAll_unplaced (level : Nat) (ts : List Token) :
    dumpAll level (unplacedAll ts) = dumpAll level ts := by
  cases ts with
  | nil => rfl
  | cons t ts =>
    rw [unplacedAll, dumpAll, dumpAll, dumpLines_unplaced level t, dumpAll_unplaced level ts]

end

/-- Two trees have the same dump on a level if and only if they differ in their places
only. A dump has one line for each token of the tree, a token before those inside it, and
each line begins with two spaces for each level. -/
theorem dump_faithful {limit limit' : Nat} {code code' : String} {tree tree' : List Token}
    (read : parseWithin limit code = .ok tree) (read' : parseWithin limit' code' = .ok tree')
    (level : Nat) :
    (dump tree level = dump tree' level ↔ tree.map Token.unplaced = tree'.map Token.unplaced) ∧
      lines (dump tree level) =
        (preorderAll level tree).map (fun e => indentation e.1 ++ (e.2.shape.label ++ e.2.detail)) ∧
      (lines (dump tree level)).length = sizeAll tree := by
  have words := leaf_of_parse read
  have listed := lines_dump level words
  refine ⟨⟨unplaced_of_dump level words (leaf_of_parse read'), ?_⟩, listed, ?_⟩
  · intro same
    rw [dump, dump, ← dumpAll_unplaced, ← dumpAll_unplaced level tree', unplacedAll_eq_map,
      unplacedAll_eq_map, same]
  · rw [listed, ← dumpAll_eq_preorderAll, dumpAll_length]

/-- A word in a group and after an empty one: only the indentation differs. -/
theorem dump_faithful_indented :
    let inside : List Token := [.group .absolute [.leaf .illegal "@" ⟨1, 1⟩] ⟨0, 2⟩]
    let after : List Token := [.group .absolute [] ⟨0, 1⟩, .leaf .illegal "@" ⟨2, 2⟩]
    parse "[@]" = .ok inside ∧ parse "[]@" = .ok after ∧
      dump inside 1 ≠ dump after 1 ∧ (lines (dump inside 1)).length = 2 ∧
      lines (dump after 1) = ["  SUBEXP -> \x7bABSOLUTE_VALUE\x7d", "  ILLEGAL(@)"] := by
  intro inside after
  have readInside : parse "[@]" = .ok inside := by decide +kernel
  have readAfter : parse "[]@" = .ok after := by decide +kernel
  obtain ⟨same, -, count⟩ := dump_faithful readInside readAfter 1
  obtain ⟨-, listed, -⟩ := dump_faithful readAfter readInside 1
  exact ⟨readInside, readAfter, fun h => absurd (same.1 h) (by decide), count, listed⟩

end Calculator
