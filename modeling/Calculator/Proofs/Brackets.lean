import Calculator.Tree
import Calculator.Proofs.Grammar

/-!
# Brackets as a tree

`Forest` holds a list of words with its brackets matched. On such a list the
outline is the one that can be read off the forest (`ofTokens_forest`), resolving
is direct recursion (`resolve_forest`), and a list of words with an outline is
that of some forest (`exists_forest`). What holds of outlines of any list is proved
by `enclose_induction` and `outline_induction`, one case for each kind of token.
-/

namespace Calculator

/-! ## Words and brackets -/

/-- Neither a bracket nor a pointer. -/
def Token.isPlain : Token → Bool
  | .leaf (.opening _) _ _ | .leaf (.closing _) _ _ | .pointer _ _ _ => false
  | _ => true

def Token.isBracket : Token → Bool
  | .leaf (.opening _) _ _ | .leaf (.closing _) _ _ => true
  | _ => false

theorem Token.isBracket_cases {t : Token} (h : t.isBracket = true) :
    (∃ family lexeme span, t = .leaf (.opening family) lexeme span) ∨
      ∃ family lexeme span, t = .leaf (.closing family) lexeme span := by
  unfold isBracket at h
  split at h
  · exact .inl ⟨_, _, _, rfl⟩
  · exact .inr ⟨_, _, _, rfl⟩
  · cases h

theorem Token.not_isBracket {t : Token} (plain : t.isPlain = true) : t.isBracket = false := by
  cases t with
  | leaf kind lexeme span =>
    cases kind with
    | opening family => cases plain
    | closing family => cases plain
    | _ => rfl
  | pointer level lexeme span => rfl
  | group family tokens span => rfl

/-- A token that a text can be cut into: brackets have the text of their family,
and no name is known to be that of a function. -/
def Token.isWord : Token → Bool
  | .leaf (.opening family) lexeme _ => lexeme = family.opener
  | .leaf (.closing family) lexeme _ => lexeme = family.closer
  | .leaf .function _ _ | .pointer _ _ _ | .group _ _ _ => false
  | _ => true

/-- No pointer, and a bracket only with the text of its family. -/
def Token.isMatchable : Token → Bool
  | .leaf (.opening family) lexeme _ => lexeme = family.opener
  | .leaf (.closing family) lexeme _ => lexeme = family.closer
  | .pointer _ _ _ => false
  | _ => true

theorem Token.isMatchable_of_isWord {t : Token} (word : t.isWord = true) :
    t.isMatchable = true := by
  cases t with
  | leaf kind lexeme span =>
    cases kind with
    | opening family => exact word
    | closing family => exact word
    | _ => rfl
  | pointer level lexeme span => cases word
  | group family tokens span => rfl

theorem Bracket.ofLexeme_opener (family : Bracket) : Bracket.ofLexeme family.opener = family := by
  cases family <;> decide

/-! ## Forests -/

/-- Words and bracketed groups of words, side by side. -/
inductive Forest where
  | nil
  | word (t : Token) (plain : t.isPlain = true) (rest : Forest)
  | group (family : Bracket) (opening closing : Span) (inside rest : Forest)

namespace Forest

def tokens : Forest → List Token
  | nil => []
  | word t _ rest => t :: rest.tokens
  | group family opening closing inside rest =>
      .leaf (.opening family) family.opener opening ::
        (inside.tokens ++ .leaf (.closing family) family.closer closing :: rest.tokens)

def hasGroup : Forest → Bool
  | nil => false
  | word _ _ rest => rest.hasGroup
  | group _ _ _ _ _ => true

/-- Each group combined, from the inside out. -/
def resolved : Forest → List Token
  | nil => []
  | word t _ rest => t :: rest.resolved
  | group family opening closing inside rest =>
      .group family (combine inside.resolved) ⟨opening.start, closing.stop⟩ :: rest.resolved

def append : Forest → Forest → Forest
  | nil, g => g
  | word t plain rest, g => word t plain (rest.append g)
  | group family opening closing inside rest, g =>
      group family opening closing inside (rest.append g)

theorem tokens_append (f g : Forest) : (f.append g).tokens = f.tokens ++ g.tokens := by
  induction f with
  | nil => rfl
  | word t plain rest ih => simp [append, tokens, ih]
  | group family opening closing inside rest _ ih => simp [append, tokens, ih]

theorem resolved_append (f g : Forest) : (f.append g).resolved = f.resolved ++ g.resolved := by
  induction f with
  | nil => rfl
  | word t plain rest ih => simp [append, resolved, ih]
  | group family opening closing inside rest _ ih => simp [append, resolved, ih]

theorem resolved_of_not_hasGroup {f : Forest} (h : f.hasGroup = false) :
    f.resolved = f.tokens := by
  induction f with
  | nil => rfl
  | word t plain rest ih => rw [resolved, tokens, ih h]
  | group family opening closing inside rest _ _ => cases h

/-! ## Outlines -/

/-- The top of the outline, with pointers to the levels after `level`. -/
def top : Nat → Forest → List Token
  | _, nil => []
  | level, word t _ rest => t :: rest.top level
  | level, group family opening closing _ rest =>
      .pointer (level + 1) family.opener ⟨opening.start, closing.stop⟩ :: rest.top (level + 1)

/-- The other levels of the outline. -/
def groups : Forest → List Level
  | nil => []
  | word _ _ rest => rest.groups
  | group _ _ _ inside rest => ⟨inside.tokens, inside.hasGroup⟩ :: rest.groups

end Forest

open Forest

theorem enclose_other {t : Token} (other : t.isBracket = false) (inner : Opening)
    (outer : List Opening) (rest : List Token) :
    enclose inner outer (t :: rest) = (enclose inner outer rest).map (·.cons t) := by
  cases t with
  | leaf kind lexeme span =>
    cases kind with
    | opening family => cases other
    | closing family => cases other
    | _ => rfl
  | pointer level lexeme span => rfl
  | group family tokens span => rfl

theorem enclose_plain {t : Token} (plain : t.isPlain = true) (inner : Opening)
    (outer : List Opening) (rest : List Token) :
    enclose inner outer (t :: rest) = (enclose inner outer rest).map (·.cons t) :=
  enclose_other (Token.not_isBracket plain) inner outer rest

theorem enclose_wrong {family : Bracket} {inner : Opening} (other : family ≠ inner.bracket)
    (lexeme : String) (span : Span) (outer : List Opening) (rest : List Token) :
    enclose inner outer (.leaf (.closing family) lexeme span :: rest) =
      .error ⟨.wrongBracket lexeme inner.lexeme, some span.start⟩ := by
  simp [enclose, other]

theorem enclose_last (inner : Opening) (lexeme : String) (span : Span) (rest : List Token) :
    enclose inner [] (.leaf (.closing inner.bracket) lexeme span :: rest) =
      .ok ⟨[], false, span⟩ := by
  simp [enclose]

theorem enclose_next (inner next : Opening) (lexeme : String) (span : Span)
    (outer : List Opening) (rest : List Token) :
    enclose inner (next :: outer) (.leaf (.closing inner.bracket) lexeme span :: rest) =
      (enclose next outer rest).map (·.cons (.leaf (.closing inner.bracket) lexeme span)) := by
  simp [enclose]

/-- Induction along the tokens that an open bracket encloses, with one case for each kind of
token and, for a bracket that closes the innermost open one, each number of those left. -/
theorem enclose_induction {motive : Opening → List Opening → List Token → Prop}
    (nil : ∀ inner outer, motive inner outer [])
    (other : ∀ inner outer t rest, t.isBracket = false → motive inner outer rest →
      motive inner outer (t :: rest))
    (opening : ∀ inner outer family lexeme span rest,
      motive ⟨family, lexeme, span⟩ (inner :: outer) rest →
        motive inner outer (.leaf (.opening family) lexeme span :: rest))
    (last : ∀ inner lexeme span rest,
      motive inner [] (.leaf (.closing inner.bracket) lexeme span :: rest))
    (next : ∀ inner next outer lexeme span rest, motive next outer rest →
      motive inner (next :: outer) (.leaf (.closing inner.bracket) lexeme span :: rest))
    (wrong : ∀ inner outer family lexeme span rest, family ≠ inner.bracket →
      motive inner outer (.leaf (.closing family) lexeme span :: rest))
    (inner : Opening) (outer : List Opening) (tokens : List Token) :
    motive inner outer tokens := by
  induction tokens generalizing inner outer with
  | nil => exact nil inner outer
  | cons t rest ih =>
    cases bracket : t.isBracket with
    | false => exact other inner outer t rest bracket (ih inner outer)
    | true =>
      rcases Token.isBracket_cases bracket with
        ⟨family, lexeme, span, rfl⟩ | ⟨family, lexeme, span, rfl⟩
      · exact opening inner outer family lexeme span rest (ih _ _)
      · by_cases same : family = inner.bracket
        · subst same
          cases outer with
          | nil => exact last inner lexeme span rest
          | cons around outer => exact next inner around outer lexeme span rest (ih around outer)
        · exact wrong inner outer family lexeme span rest same

/-- Matched brackets leave the open ones as they are. -/
theorem enclose_forest (f : Forest) (inner : Opening) (outer : List Opening)
    (rest : List Token) :
    enclose inner outer (f.tokens ++ rest) = (enclose inner outer rest).map fun e =>
      ⟨f.tokens ++ e.tokens, f.hasGroup || e.nested, e.closing⟩ := by
  induction f generalizing inner outer rest with
  | nil =>
    rw [tokens, List.nil_append]
    cases enclose inner outer rest <;> rfl
  | word t plain f ih =>
    rw [tokens, List.cons_append, enclose_plain plain, ih]
    cases enclose inner outer rest <;> rfl
  | group family opening closing inside f ih ih' =>
    have closes : enclose ⟨family, family.opener, opening⟩ (inner :: outer)
        (.leaf (.closing family) family.closer closing :: (f.tokens ++ rest)) =
        (enclose inner outer (f.tokens ++ rest)).map
          (·.cons (.leaf (.closing family) family.closer closing)) := by
      simp [enclose]
    rw [tokens, List.cons_append, List.append_assoc, List.cons_append, enclose]
    simp only [ih, closes, ih']
    cases enclose inner outer rest <;> simp [Except.map, Enclosed.cons, hasGroup]

/-- A group is enclosed by the bracket that closes it. -/
theorem enclose_group (f : Forest) (family : Bracket) (opening closing : Span)
    (rest : List Token) :
    enclose ⟨family, family.opener, opening⟩ []
      (f.tokens ++ .leaf (.closing family) family.closer closing :: rest) =
      .ok ⟨f.tokens, f.hasGroup, closing⟩ := by
  rw [enclose_forest]
  simp [enclose, Except.map]

theorem ofTokensFrom_other {t : Token} (other : t.isBracket = false) (level : Nat)
    (rest : List Token) :
    Outline.ofTokensFrom level (t :: rest) =
      (Outline.ofTokensFrom level rest).map fun o => { o with top := t :: o.top } := by
  cases t with
  | leaf kind lexeme span =>
    cases kind with
    | opening family => cases other
    | closing family => cases other
    | _ => simp [Outline.ofTokensFrom]
  | pointer number lexeme span => simp [Outline.ofTokensFrom]
  | group family tokens span => simp [Outline.ofTokensFrom]

theorem ofTokensFrom_plain {t : Token} (plain : t.isPlain = true) (level : Nat)
    (rest : List Token) :
    Outline.ofTokensFrom level (t :: rest) =
      (Outline.ofTokensFrom level rest).map fun o => { o with top := t :: o.top } :=
  ofTokensFrom_other (Token.not_isBracket plain) level rest

/-- Behind an opening bracket its group is cut off, and the rest has an outline with
pointers to the levels after it. -/
theorem ofTokensFrom_opening (level : Nat) (family : Bracket) (lexeme : String) (span : Span)
    (rest : List Token) :
    Outline.ofTokensFrom level (.leaf (.opening family) lexeme span :: rest) =
      enclose ⟨family, lexeme, span⟩ [] rest >>= fun e =>
        (Outline.ofTokensFrom (level + 1) (rest.drop (e.tokens.length + 1))).map fun o =>
          ⟨.pointer (level + 1) lexeme ⟨span.start, e.closing.stop⟩ :: o.top,
            ⟨e.tokens, e.nested⟩ :: o.groups⟩ := by
  rw [Outline.ofTokensFrom]
  cases enclose ⟨family, lexeme, span⟩ [] rest with
  | error fault => rfl
  | ok e =>
    show (Outline.ofTokensFrom (level + 1) (rest.drop (e.tokens.length + 1)) >>= _) =
      (Outline.ofTokensFrom (level + 1) (rest.drop (e.tokens.length + 1))).map _
    cases Outline.ofTokensFrom (level + 1) (rest.drop (e.tokens.length + 1)) <;> rfl

/-- Induction along an outline, with the number of the last level before it. What is left
behind an opening bracket, once its group is cut off, is some end of the list. -/
theorem outline_induction {motive : Nat → List Token → Prop}
    (nil : ∀ level, motive level [])
    (other : ∀ level t rest, t.isBracket = false → motive level rest → motive level (t :: rest))
    (opening : ∀ level family lexeme span (rest : List Token),
      (∀ n, motive (level + 1) (rest.drop n)) →
        motive level (.leaf (.opening family) lexeme span :: rest))
    (closing : ∀ level family lexeme span rest,
      motive level (.leaf (.closing family) lexeme span :: rest))
    (level : Nat) (tokens : List Token) : motive level tokens := by
  induction size : tokens.length using Nat.strongRecOn generalizing level tokens with
  | _ n ih =>
    cases tokens with
    | nil => exact nil level
    | cons t rest =>
      have shorter : ∀ n, (rest.drop n).length < (t :: rest).length := by
        intro n
        rw [List.length_drop, List.length_cons]
        omega
      cases bracket : t.isBracket with
      | false => exact other level t rest bracket (ih _ (size ▸ shorter 0) level rest rfl)
      | true =>
        rcases Token.isBracket_cases bracket with
          ⟨family, lexeme, span, rfl⟩ | ⟨family, lexeme, span, rfl⟩
        · exact opening level family lexeme span rest fun n =>
            ih _ (size ▸ shorter n) (level + 1) _ rfl
        · exact closing level family lexeme span rest

/-- A group becomes a pointer and a level of its own. -/
theorem ofTokensFrom_group (f : Forest) (family : Bracket) (opening closing : Span)
    (level : Nat) (rest : List Token) :
    Outline.ofTokensFrom level (.leaf (.opening family) family.opener opening ::
        (f.tokens ++ .leaf (.closing family) family.closer closing :: rest)) =
      (Outline.ofTokensFrom (level + 1) rest).map fun o =>
        ⟨.pointer (level + 1) family.opener ⟨opening.start, closing.stop⟩ :: o.top,
          ⟨f.tokens, f.hasGroup⟩ :: o.groups⟩ := by
  rw [ofTokensFrom_opening, enclose_group]
  show (Outline.ofTokensFrom (level + 1) (List.drop (f.tokens.length + 1) _)).map _ = _
  rw [List.drop_length_add_append]
  rfl

theorem ofTokensFrom_forest (f : Forest) (level : Nat) :
    Outline.ofTokensFrom level f.tokens = .ok ⟨f.top level, f.groups⟩ := by
  induction f generalizing level with
  | nil => simp [Forest.tokens, Outline.ofTokensFrom, top, groups]
  | word t plain rest ih =>
    rw [Forest.tokens, ofTokensFrom_plain plain, ih]
    rfl
  | group family opening closing inside rest _ ih =>
    rw [Forest.tokens, ofTokensFrom_group, ih]
    rfl

theorem ofTokens_forest (f : Forest) :
    Outline.ofTokens f.tokens = .ok ⟨f.top 0, f.groups⟩ := ofTokensFrom_forest f 0

/-! ## Resolving -/

/-- A reading gives a result unless it ends for lack of depth. -/
def Yields {α : Type} (reading : Except Fault α) (a : α) : Prop :=
  reading = .error .tooDeep ∨ reading = .ok a

theorem Yields.bind {α β : Type} {reading : Except Fault α} {next : α → Except Fault β} {a : α}
    {b : β} (first : Yields reading a) (second : Yields (next a) b) :
    Yields (reading >>= next) b := by
  rcases first with h | h
  · exact .inl (by rw [h]; rfl)
  · rw [h]
    exact second

theorem combineWithin_yields (limit : Nat) (ts : List Token) :
    Yields (combineWithin limit ts) (combine ts) := by
  unfold combineWithin
  split
  · exact .inr rfl
  · exact .inl rfl

/-- The contents of a group are resolved only if there are brackets in it. -/
def Forest.contents (inner : List Token → Except Fault (List Token)) (f : Forest) :
    Except Fault (List Token) :=
  if f.hasGroup then inner f.tokens else .ok f.tokens

/-- One level of resolving. -/
def Forest.resolveOnce (limit : Nat) (inner : List Token → Except Fault (List Token)) :
    Forest → Except Fault (List Token)
  | .nil => .ok []
  | .word t _ rest => do
      let ts ← rest.resolveOnce limit inner
      return t :: ts
  | .group family opening closing inside rest => do
      let tokens ← inside.contents inner
      let combined ← combineWithin limit tokens
      let ts ← rest.resolveOnce limit inner
      return .group family combined ⟨opening.start, closing.stop⟩ :: ts

theorem mapM_fill_top (o : Outline) (limit : Nat)
    (inner : List Token → Except Fault (List Token)) (f : Forest) (level : Nat)
    (h : o.levels.drop (level + 1) = f.groups) :
    (f.top level).mapM (o.fill limit inner) = f.resolveOnce limit inner := by
  induction f generalizing level with
  | nil => rfl
  | word t plain rest ih =>
    have keep : o.fill limit inner t = .ok t := by
      unfold Outline.fill
      split
      · cases plain
      · rfl
    rw [top, List.mapM_cons, keep, ih level h, resolveOnce]
    rfl
  | group family opening closing inside rest _ ih =>
    have here : o.levels[level + 1]? = some ⟨inside.tokens, inside.hasGroup⟩ := by
      have := congrArg List.head? h
      rwa [List.head?_drop] at this
    have after : o.levels.drop (level + 1 + 1) = rest.groups := by
      rw [← List.drop_drop, h]
      rfl
    rw [top, List.mapM_cons, ih (level + 1) after, resolveOnce, contents, Outline.fill, here]
    simp only [Bracket.ofLexeme_opener]
    cases inside.hasGroup <;> simp

theorem resolve_succ (limit : Nat) (f : Forest) :
    resolve (limit + 1) f.tokens = f.resolveOnce limit (resolve limit) := by
  rw [resolve, ofTokens_forest]
  exact mapM_fill_top _ limit (resolve limit) f 0 rfl

/-- On matched brackets resolving gives the combined forest. -/
theorem resolve_forest (limit : Nat) (f : Forest) :
    Yields (resolve limit f.tokens) f.resolved := by
  induction limit generalizing f with
  | zero => exact .inl rfl
  | succ limit ih =>
    rw [resolve_succ]
    induction f with
    | nil => exact .inr rfl
    | word t plain rest ih' => exact .bind ih' (.inr rfl)
    | group family opening closing inside rest _ ih' =>
      have contents : Yields (inside.contents (resolve limit)) inside.resolved := by
        unfold Forest.contents
        split
        · exact ih inside
        · rename_i h
          exact .inr (by rw [resolved_of_not_hasGroup (Bool.eq_false_iff.2 h)])
      exact .bind contents (.bind (combineWithin_yields _ _) (.bind ih' (.inr rfl)))

/-- The forest is less deep than the limit, and so are the powers in its groups. -/
def Forest.Fits : Nat → Forest → Prop
  | limit, .nil => 0 < limit
  | limit, .word _ _ rest => rest.Fits limit
  | limit, .group _ _ _ inside rest =>
      inside.Fits (limit - 1) ∧ powersWithin (limit - 1) inside.resolved = true ∧ rest.Fits limit

theorem Forest.Fits.pos {limit : Nat} {f : Forest} (h : f.Fits limit) : 0 < limit := by
  induction f with
  | nil => exact h
  | word t plain rest ih => exact ih h
  | group family opening closing inside rest _ ih => exact ih h.2.2

theorem Forest.Fits.append {limit : Nat} {f g : Forest} (hf : f.Fits limit)
    (hg : g.Fits limit) : (f.append g).Fits limit := by
  induction f with
  | nil => exact hg
  | word t plain rest ih => exact ih hf
  | group family opening closing inside rest _ ih => exact ⟨hf.1, hf.2.1, ih hf.2.2⟩

/-- A forest that fits is resolved. -/
theorem resolve_of_fits {limit : Nat} {f : Forest} (h : f.Fits limit) :
    resolve limit f.tokens = .ok f.resolved := by
  induction limit generalizing f with
  | zero => exact absurd h.pos (Nat.lt_irrefl 0)
  | succ limit ih =>
    rw [resolve_succ]
    induction f with
    | nil => rfl
    | word t plain rest ih' => rw [resolveOnce, ih' h]; rfl
    | group family opening closing inside rest _ ih' =>
      obtain ⟨hi, hp, hr⟩ := h
      have contents : inside.contents (resolve limit) = .ok inside.resolved := by
        unfold Forest.contents
        split
        · exact ih hi
        · rename_i h
          rw [resolved_of_not_hasGroup (Bool.eq_false_iff.2 h)]
      have combined : combineWithin limit inside.resolved = .ok (combine inside.resolved) :=
        if_pos hp
      rw [resolveOnce, contents]
      show (combineWithin limit inside.resolved >>= _) = _
      rw [combined]
      show (resolveOnce limit (resolve limit) rest >>= _) = _
      rw [ih' hr]
      rfl

/-! ## Forests of given lists -/

theorem Token.isMatchable_cases {t : Token} (matchable : t.isMatchable = true) :
    t.isPlain = true ∨ (∃ family span, t = .leaf (.opening family) family.opener span) ∨
      ∃ family span, t = .leaf (.closing family) family.closer span := by
  cases t with
  | leaf kind lexeme span =>
    cases kind with
    | opening family =>
      obtain rfl : lexeme = family.opener := of_decide_eq_true matchable
      exact .inr (.inl ⟨family, span, rfl⟩)
    | closing family =>
      obtain rfl : lexeme = family.closer := of_decide_eq_true matchable
      exact .inr (.inr ⟨family, span, rfl⟩)
    | _ => exact .inl rfl
  | pointer level lexeme span => cases matchable
  | group family tokens span => exact .inl rfl

theorem exists_of_map_eq_ok {α β : Type} {f : α → β} {reading : Except Fault α} {b : β}
    (h : reading.map f = .ok b) : ∃ a, reading = .ok a ∧ b = f a := by
  cases reading with
  | error fault => cases h
  | ok a =>
    cases h
    exact ⟨a, rfl, rfl⟩

theorem exists_of_bind_eq_ok {α β : Type} {next : α → Except Fault β}
    {reading : Except Fault α} {b : β} (h : (reading >>= next) = .ok b) :
    ∃ a, reading = .ok a ∧ next a = .ok b := by
  cases reading with
  | error fault => cases h
  | ok a => exact ⟨a, rfl, h⟩

/-- What an open bracket encloses is a forest, and the brackets around it enclose
what comes after it. -/
theorem exists_enclosed (n : Nat) {tokens : List Token} (size : tokens.length ≤ n)
    (matchable : ∀ t ∈ tokens, t.isMatchable = true) {inner : Opening} {outer : List Opening}
    {e : Enclosed} (h : enclose inner outer tokens = .ok e) :
    ∃ (f : Forest) (closing : Span) (rest : List Token),
      tokens = f.tokens ++ .leaf (.closing inner.bracket) inner.bracket.closer closing :: rest ∧
      ∀ next others, outer = next :: others → ∃ e', enclose next others rest = .ok e' := by
  -- A bracket that opens is followed by two lists that end with a closing one: its
  -- contents and what is left of those of the bracket around it.
  induction n generalizing tokens inner outer e with
  | zero =>
    rw [List.eq_nil_of_length_eq_zero (Nat.le_zero.1 size)] at h
    cases h
  | succ n ih =>
    cases tokens with
    | nil => cases h
    | cons t tokens =>
      have short : tokens.length ≤ n := Nat.le_of_succ_le_succ size
      have tail : ∀ x ∈ tokens, x.isMatchable = true :=
        fun x hx => matchable x (List.mem_cons_of_mem _ hx)
      rcases Token.isMatchable_cases (matchable t List.mem_cons_self) with
        plain | ⟨family, span, rfl⟩ | ⟨family, span, rfl⟩
      · rw [enclose_plain plain] at h
        obtain ⟨e', h, _⟩ := exists_of_map_eq_ok h
        obtain ⟨f, closing, rest, rfl, after⟩ := ih short tail h
        exact ⟨.word t plain f, closing, rest, rfl, after⟩
      · rw [enclose] at h
        obtain ⟨e', h, _⟩ := exists_of_map_eq_ok h
        obtain ⟨f, closing, rest, rfl, after⟩ := ih short tail h
        obtain ⟨e'', h⟩ := after inner outer rfl
        obtain ⟨g, closing', rest', rfl, after'⟩ := ih (by simp at short; omega)
          (fun x hx => tail x (by simp [hx])) h
        exact ⟨.group family span closing f g, closing', rest', by simp [Forest.tokens], after'⟩
      · unfold enclose at h
        simp only at h
        split at h
        · cases h
        · rename_i same
          obtain rfl : family = inner.bracket := Decidable.of_not_not same
          refine ⟨.nil, span, tokens, rfl, ?_⟩
          rintro next others rfl
          obtain ⟨e', h, _⟩ := exists_of_map_eq_ok h
          exact ⟨e', h⟩

/-- A list that has an outline is that of a forest. -/
theorem exists_forest {level : Nat} {tokens : List Token}
    (matchable : ∀ t ∈ tokens, t.isMatchable = true) {o : Outline}
    (h : Outline.ofTokensFrom level tokens = .ok o) : ∃ f : Forest, tokens = f.tokens := by
  induction level, tokens using outline_induction generalizing o with
  | nil level => exact ⟨.nil, rfl⟩
  | other level t rest other ih =>
    obtain ⟨first, tail⟩ := List.forall_mem_cons.1 matchable
    have plain : t.isPlain = true := by
      rcases Token.isMatchable_cases first with plain | ⟨family, span, rfl⟩ | ⟨family, span, rfl⟩
      · exact plain
      · cases other
      · cases other
    rw [ofTokensFrom_other other] at h
    obtain ⟨o', h, _⟩ := exists_of_map_eq_ok h
    obtain ⟨f, rfl⟩ := ih tail h
    exact ⟨.word t plain f, rfl⟩
  | opening level family lexeme span rest ih =>
    obtain ⟨first, tail⟩ := List.forall_mem_cons.1 matchable
    obtain rfl : lexeme = family.opener := of_decide_eq_true first
    rw [ofTokensFrom_opening] at h
    obtain ⟨e, enclosed, h⟩ := exists_of_bind_eq_ok h
    obtain ⟨o', h, _⟩ := exists_of_map_eq_ok h
    obtain ⟨g, after⟩ := ih _ (fun t ht => tail t (List.mem_of_mem_drop ht)) h
    obtain ⟨f, closing, rest, rfl, _⟩ := exists_enclosed _ (Nat.le_refl _) tail enclosed
    rw [enclose_group] at enclosed
    cases enclosed
    rw [List.drop_length_add_append] at after
    exact ⟨.group family span closing f g, by rw [Forest.tokens, ← after]; rfl⟩
  | closing level family lexeme span rest =>
    rw [Outline.ofTokensFrom] at h
    cases h

/-- A list of words that can be resolved is that of a forest. -/
theorem exists_forest_of_resolve {limit : Nat} {tokens resolved : List Token}
    (words : ∀ t ∈ tokens, t.isWord = true) (h : resolve limit tokens = .ok resolved) :
    ∃ f : Forest, tokens = f.tokens ∧ resolved = f.resolved := by
  cases limit with
  | zero => cases h
  | succ limit =>
    obtain ⟨o, ho, _⟩ := exists_of_bind_eq_ok h
    obtain ⟨f, rfl⟩ := exists_forest
      (fun t ht => Token.isMatchable_of_isWord (words t ht)) ho
    rcases resolve_forest (limit + 1) f with deep | same
    · rw [h] at deep
      cases deep
    · rw [h] at same
      cases same
      exact ⟨f, rfl, rfl⟩

end Calculator
