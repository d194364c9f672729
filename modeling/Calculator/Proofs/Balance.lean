import Calculator.Proofs.Acceptance

/-!
# Which brackets are refused

One check from left to right with a stack of the open brackets says whether a text
is read, and where it fails if not.

* `bracketFault`: the first bracket at which the check fails.
* `ofTokens_error_iff`: the outline of a list fails where the check does, and the
  groups it cuts out pass the check (`bracketFault_of_inner`).
* `Forest.resolve_eq`: from which bound on the depth matched brackets are resolved.
* `parse_checks_brackets`: a text is read unless it is empty, its brackets do not
  match or it is too deep for the bound.
-/

namespace Calculator

/-! ## The check -/

/-- The first bracket that does not fit, with the open ones innermost first. At the
end of the list none may be open. -/
def bracketFault : List Opening → List Token → Option Fault
  | [], [] => none
  | inner :: _, [] => some ⟨.unclosedBracket inner.lexeme, some inner.span.start⟩
  | waiting, t :: rest =>
      match t with
      | .leaf (.opening family) lexeme span => bracketFault (⟨family, lexeme, span⟩ :: waiting) rest
      | .leaf (.closing family) lexeme span =>
          match waiting with
          | [] => some ⟨.unexpectedBracket lexeme, some span.start⟩
          | inner :: outer =>
              if family = inner.bracket then bracketFault outer rest
              else some ⟨.wrongBracket lexeme inner.lexeme, some span.start⟩
      | _ => bracketFault waiting rest

theorem bracketFault_other {t : Token} (other : t.isBracket = false) (waiting : List Opening)
    (rest : List Token) : bracketFault waiting (t :: rest) = bracketFault waiting rest := by
  cases t with
  | leaf kind lexeme span =>
    cases kind with
    | opening family => cases other
    | closing family => cases other
    | _ => cases waiting <;> rfl
  | pointer level lexeme span => cases waiting <;> rfl
  | group family tokens span => cases waiting <;> rfl

theorem bracketFault_opening (waiting : List Opening) (family : Bracket) (lexeme : String)
    (span : Span) (rest : List Token) :
    bracketFault waiting (.leaf (.opening family) lexeme span :: rest) =
      bracketFault (⟨family, lexeme, span⟩ :: waiting) rest := by
  cases waiting <;> rfl

theorem bracketFault_closes (inner : Opening) (outer : List Opening) (lexeme : String)
    (span : Span) (rest : List Token) :
    bracketFault (inner :: outer) (.leaf (.closing inner.bracket) lexeme span :: rest) =
      bracketFault outer rest := if_pos rfl

theorem bracketFault_wrong {family : Bracket} {inner : Opening} (other : family ≠ inner.bracket)
    (outer : List Opening) (lexeme : String) (span : Span) (rest : List Token) :
    bracketFault (inner :: outer) (.leaf (.closing family) lexeme span :: rest) =
      some ⟨.wrongBracket lexeme inner.lexeme, some span.start⟩ := if_neg other

/-- The check is about brackets only. -/
theorem bracketFault_category {waiting : List Opening} {tokens : List Token} {fault : Fault}
    (h : bracketFault waiting tokens = some fault) :
    fault.cause.category = .mismatchedBrackets := by
  fun_induction bracketFault waiting tokens with
  | case1 => cases h
  | case2 inner outer => cases h; rfl
  | case3 waiting rest family lexeme span ih => exact ih h
  | case4 rest family lexeme span => cases h; rfl
  | case5 rest lexeme span inner outer ih => exact ih h
  | case6 rest family lexeme span inner outer other => cases h; rfl
  | case7 waiting t rest _ _ ih => exact ih h

/-! ## Outlines -/

/-- What a group encloses ends where the last of the open brackets is closed. Inside
it the check passes, with all but that one open. -/
def Checks (waiting : List Opening) (tokens : List Token) : Except Fault Enclosed → Prop
  | .error fault => bracketFault waiting tokens = some fault
  | .ok e => bracketFault waiting tokens = bracketFault [] (tokens.drop (e.tokens.length + 1)) ∧
      bracketFault waiting.dropLast e.tokens = none

theorem Checks.cons {waiting waiting' : List Opening} {t : Token} {rest : List Token}
    {result : Except Fault Enclosed} (after : Checks waiting' rest result)
    (step : bracketFault waiting (t :: rest) = bracketFault waiting' rest)
    (inside : ∀ us, bracketFault waiting.dropLast (t :: us) = bracketFault waiting'.dropLast us)
    {add : Enclosed → Enclosed} (added : ∀ e, (add e).tokens = t :: e.tokens) :
    Checks waiting (t :: rest) (result.map add) := by
  cases result with
  | error fault => exact step.trans after
  | ok e =>
    refine ⟨?_, ?_⟩
    · rw [step, added]
      exact after.1
    · rw [added, inside]
      exact after.2

theorem enclose_checks (inner : Opening) (outer : List Opening) (tokens : List Token) :
    Checks (inner :: outer) tokens (enclose inner outer tokens) := by
  induction inner, outer, tokens using enclose_induction with
  | nil inner outer => exact rfl
  | other inner outer t rest other ih =>
    rw [enclose_other other]
    exact ih.cons (bracketFault_other other _ _)
      (fun us => bracketFault_other other _ us) fun e => rfl
  | opening inner outer family lexeme span rest ih =>
    rw [enclose]
    exact ih.cons (bracketFault_opening _ family lexeme span rest)
      (fun us => bracketFault_opening _ family lexeme span us) fun e => rfl
  | last inner lexeme span rest =>
    rw [enclose_last]
    exact ⟨bracketFault_closes inner [] lexeme span rest, rfl⟩
  | next inner next outer lexeme span rest ih =>
    rw [enclose_next]
    exact ih.cons (bracketFault_closes inner _ lexeme span rest)
      (fun us => bracketFault_closes inner _ lexeme span us) fun e => rfl
  | wrong inner outer family lexeme span rest wrong =>
    rw [enclose_wrong wrong]
    exact bracketFault_wrong wrong outer lexeme span rest

/-- The outline of a list fails where the check does, and so does nothing inside. -/
theorem ofTokensFrom_checks (level : Nat) (tokens : List Token) :
    match Outline.ofTokensFrom level tokens with
    | .error fault => bracketFault [] tokens = some fault
    | .ok o => bracketFault [] tokens = none ∧ ∀ l ∈ o.groups, bracketFault [] l.tokens = none := by
  induction level, tokens using outline_induction with
  | nil level =>
    rw [Outline.ofTokensFrom]
    exact ⟨rfl, by simp⟩
  | other level t rest other ih =>
    rw [ofTokensFrom_other other, bracketFault_other other]
    cases h : Outline.ofTokensFrom level rest with
    | error fault => rwa [h] at ih
    | ok o => rwa [h] at ih
  | opening level family lexeme span rest ih =>
    have first := enclose_checks ⟨family, lexeme, span⟩ [] rest
    rw [ofTokensFrom_opening, bracketFault_opening]
    cases h : enclose ⟨family, lexeme, span⟩ [] rest with
    | error fault => rwa [h] at first
    | ok e =>
      rw [h] at first
      have after := ih (e.tokens.length + 1)
      rw [first.1]
      show match ((Outline.ofTokensFrom (level + 1) (rest.drop (e.tokens.length + 1))).map _ :
        Except Fault Outline) with | .error fault => _ | .ok o => _
      cases ho : Outline.ofTokensFrom (level + 1) (rest.drop (e.tokens.length + 1)) with
      | error fault => rwa [ho] at after
      | ok o =>
        rw [ho] at after
        exact ⟨after.1, List.forall_mem_cons.2 ⟨first.2, after.2⟩⟩
  | closing level family lexeme span rest =>
    rw [Outline.ofTokensFrom]
    rfl

theorem ofTokens_error_iff {tokens : List Token} {fault : Fault} :
    Outline.ofTokens tokens = .error fault ↔ bracketFault [] tokens = some fault := by
  have checks := ofTokensFrom_checks 0 tokens
  rw [Outline.ofTokens]
  cases h : Outline.ofTokensFrom 0 tokens with
  | error fault' =>
    rw [h] at checks
    rw [checks, Except.error.injEq, Option.some.injEq]
  | ok o =>
    rw [h] at checks
    rw [checks.1]
    simp

theorem exists_outline {tokens : List Token} (h : bracketFault [] tokens = none) :
    ∃ o, Outline.ofTokens tokens = .ok o := by
  cases ho : Outline.ofTokens tokens with
  | error fault =>
    rw [ofTokens_error_iff.1 ho] at h
    cases h
  | ok o => exact ⟨o, rfl⟩

/-- The contents of the groups of a list, at any depth, as one outline after the
other cuts them out. -/
inductive Inner (tokens : List Token) : List Token → Prop where
  | top {o : Outline} {l : Level} (outline : Outline.ofTokens tokens = .ok o)
      (group : l ∈ o.groups) : Inner tokens l.tokens
  | deeper {us : List Token} {o : Outline} {l : Level} (inner : Inner tokens us)
      (outline : Outline.ofTokens us = .ok o) (group : l ∈ o.groups) : Inner tokens l.tokens

theorem bracketFault_of_group {tokens : List Token} {o : Outline} {l : Level}
    (outline : Outline.ofTokens tokens = .ok o) (group : l ∈ o.groups) :
    bracketFault [] l.tokens = none := by
  have checks := ofTokensFrom_checks 0 tokens
  rw [← Outline.ofTokens, outline] at checks
  exact checks.2 l group

theorem bracketFault_of_inner {tokens us : List Token} (inner : Inner tokens us) :
    bracketFault [] us = none := by
  cases inner with
  | top outline group => exact bracketFault_of_group outline group
  | deeper _ outline group => exact bracketFault_of_group outline group

/-! ## Depth -/

/-- The most powers in one chain. -/
def powerDepth (tokens : List Token) : Nat :=
  ((chains Token.isPower (separate tokens)).map fun chain => chain.length / 2).foldr max 0

theorem powersWithin_iff (limit : Nat) (tokens : List Token) :
    powersWithin limit tokens = true ↔ powerDepth tokens ≤ limit := by
  unfold powersWithin powerDepth
  induction chains Token.isPower (separate tokens) with
  | nil => simp
  | cons chain others ih =>
    rw [List.all_cons, Bool.and_eq_true, ih, List.map_cons, List.foldr_cons, Nat.max_le,
      decide_eq_true_eq]
    omega

/-- A result that takes so much depth, or none for lack of it. -/
def atDepth {α : Type} (limit depth : Nat) (a : α) : Except Fault α :=
  if depth ≤ limit then .ok a else .error .tooDeep

theorem combineWithin_eq (limit : Nat) (tokens : List Token) :
    combineWithin limit tokens = atDepth limit (powerDepth tokens) (combine tokens) := by
  simp only [combineWithin, atDepth, powersWithin_iff]

theorem eq_of_atDepth {α : Type} {limit depth : Nat} {a b : α}
    (h : atDepth limit depth a = .ok b) : b = a := by
  unfold atDepth at h
  split at h
  · cases h
    rfl
  · cases h

theorem tooDeep_of_atDepth {α : Type} {limit depth : Nat} {a : α} {fault : Fault}
    (h : atDepth limit depth a = .error fault) : fault = .tooDeep := by
  unfold atDepth at h
  split at h
  · cases h
  · cases h
    rfl

theorem atDepth_bind {α β : Type} {limit depth depth' : Nat} {a : α} {b : β}
    {next : α → Except Fault β} (h : next a = atDepth limit depth' b) :
    atDepth limit depth a >>= next = atDepth limit (max depth depth') b := by
  by_cases le : depth ≤ limit
  · rw [atDepth, if_pos le]
    show next a = _
    rw [h, atDepth, atDepth]
    by_cases le' : depth' ≤ limit
    · rw [if_pos le', if_pos (by omega)]
    · rw [if_neg le', if_neg (by omega)]
  · rw [atDepth, atDepth, if_neg le, if_neg (by omega)]
    rfl

theorem atDepth_succ {α : Type} (limit depth : Nat) (a : α) :
    atDepth limit depth a = atDepth (limit + 1) (depth + 1) a := by
  simp only [atDepth, Nat.add_le_add_iff_right]

theorem atDepth_map {α β : Type} (limit depth : Nat) (a : α) (f : α → β) :
    (atDepth limit depth a >>= fun x => return f x) = atDepth limit depth (f a) := by
  unfold atDepth
  split <;> rfl

namespace Forest

/-- The bound from which on the forest is resolved: a group inside a group takes one
more step, and so does a power on the right of a power. -/
def depth : Forest → Nat
  | nil => 1
  | word _ _ rest => rest.depth
  | group _ _ _ inside rest =>
      max (max (if inside.hasGroup then inside.depth else 0) (powerDepth inside.resolved) + 1)
        rest.depth

theorem depth_pos (f : Forest) : 0 < f.depth := by
  induction f with
  | nil => exact Nat.one_pos
  | word t plain rest ih => exact ih
  | group family opening closing inside rest _ ih =>
    exact Nat.lt_of_lt_of_le ih (Nat.le_max_right _ _)

/-- Matched brackets are resolved if and only if the bound on the depth allows it. -/
theorem resolve_eq (limit : Nat) (f : Forest) :
    resolve limit f.tokens = atDepth limit f.depth f.resolved := by
  induction limit generalizing f with
  | zero =>
    have := f.depth_pos
    rw [resolve, atDepth, if_neg (by omega)]
  | succ limit ih =>
    rw [resolve_succ]
    induction f with
    | nil => simp [resolveOnce, depth, atDepth, resolved]
    | word t plain rest ih' =>
      rw [resolveOnce, ih']
      exact atDepth_map _ _ _ _
    | group family opening closing inside rest _ ih' =>
      have contents : inside.contents (resolve limit) =
          atDepth limit (if inside.hasGroup then inside.depth else 0) inside.resolved := by
        unfold contents
        split
        · exact ih inside
        · rename_i h
          rw [resolved_of_not_hasGroup (Bool.eq_false_iff.2 h)]
          rfl
      have after := atDepth_map (limit + 1) rest.depth rest.resolved
        fun ts => Token.group family (combine inside.resolved) ⟨opening.start, closing.stop⟩ :: ts
      have combined := combineWithin_eq limit inside.resolved
      rw [atDepth_succ] at contents combined
      rw [resolveOnce, contents, ih']
      rw [atDepth_bind (by rw [combined]; exact atDepth_bind after)]
      have same : max ((if inside.hasGroup then inside.depth else 0) + 1)
          (max (powerDepth inside.resolved + 1) rest.depth) =
            (group family opening closing inside rest).depth := by
        rw [depth]
        omega
      rw [same]
      rfl

end Forest

/-! ## How deep a text can be -/

/-- How many brackets are open at a time, after some that are open already. -/
def bracketDepth (waiting : Nat) : List Token → Nat
  | [] => waiting
  | t :: rest =>
      match t with
      | .leaf (.opening _) _ _ => bracketDepth (waiting + 1) rest
      | .leaf (.closing _) _ _ => max waiting (bracketDepth (waiting - 1) rest)
      | _ => bracketDepth waiting rest

theorem bracketDepth_other {t : Token} (other : t.isBracket = false) (waiting : Nat)
    (rest : List Token) : bracketDepth waiting (t :: rest) = bracketDepth waiting rest := by
  cases t with
  | leaf kind lexeme span =>
    cases kind with
    | opening family => cases other
    | closing family => cases other
    | _ => rfl
  | pointer level lexeme span => rfl
  | group family tokens span => rfl

theorem le_bracketDepth (waiting : Nat) (tokens : List Token) :
    waiting ≤ bracketDepth waiting tokens := by
  fun_induction bracketDepth waiting tokens with
  | case1 waiting => exact Nat.le_refl _
  | case2 waiting rest family lexeme span ih => omega
  | case3 waiting rest family lexeme span ih => exact Nat.le_max_left _ _
  | case4 waiting t rest _ _ ih => exact ih

/-- How many groups of a forest are inside one another. -/
def Forest.height : Forest → Nat
  | nil => 0
  | word _ _ rest => rest.height
  | group _ _ _ inside rest => max (inside.height + 1) rest.height

theorem bracketDepth_forest (f : Forest) (waiting : Nat) (rest : List Token) :
    bracketDepth waiting (f.tokens ++ rest) =
      max (waiting + f.height) (bracketDepth waiting rest) := by
  induction f generalizing waiting rest with
  | nil =>
    have := le_bracketDepth waiting rest
    simp only [Forest.tokens, Forest.height, List.nil_append]
    omega
  | word t plain f ih =>
    rw [Forest.tokens, List.cons_append, bracketDepth_other (Token.not_isBracket plain), ih]
    rfl
  | group family opening closing inside f ih ih' =>
    have inner := ih (waiting + 1)
      (.leaf (.closing family) family.closer closing :: (f.tokens ++ rest))
    have outer := ih' waiting rest
    simp only [Forest.tokens, Forest.height, List.cons_append, List.append_assoc, bracketDepth,
      inner, Nat.add_sub_cancel, outer]
    omega

theorem Token.not_isPower_of_isOperand {t : Token} (operand : t.isOperand = true) :
    t.isPower = false := by
  unfold isOperand at operand
  split at operand
  · rfl
  · rfl
  · rfl
  · cases operand

theorem Token.not_isPower_of_isFactorial {t : Token} (mark : t.isFactorial = true) :
    t.isPower = false := by
  unfold isFactorial at mark
  split at mark
  · rfl
  · cases mark

theorem bind?_not_isPower {held t bound : Token} (h : bind? held t = some bound) :
    held.isPower = false ∧ t.isPower = false ∧ bound.isPower = false := by
  unfold bind? at h
  split at h
  · rename_i marked
    rw [Bool.and_eq_true] at marked
    cases h
    exact ⟨Token.not_isPower_of_isOperand marked.2, Token.not_isPower_of_isFactorial marked.1, rfl⟩
  · split at h
    · split at h
      · rename_i called
        rw [Bool.and_eq_true] at called
        cases h
        exact ⟨rfl, Token.not_isPower_of_isOperand (Token.isOperand_of_isQuantity called.2), rfl⟩
      · cases h
    · cases h

theorem countP_bindFrom (held : Token) (ts : List Token) :
    (bindFrom held ts).countP Token.isPower = (held :: ts).countP Token.isPower := by
  fun_induction bindFrom held ts with
  | case1 held => rfl
  | case2 held t rest bound hb ih =>
    obtain ⟨hh, ht, hb⟩ := bind?_not_isPower hb
    rw [ih]
    simp [hh, ht, hb]
  | case3 held t rest hb ih => rw [List.countP_cons, ih, List.countP_cons (a := held)]

theorem countP_insertProducts (ts : List Token) :
    (insertProducts ts).countP Token.isPower = ts.countP Token.isPower := by
  induction ts with
  | nil => rfl
  | cons t ts ih =>
    have implied : impliedTimes.isPower = false := rfl
    rw [insertProducts]
    split <;> simp [List.countP_cons, ih, implied]

theorem countP_separate (ts : List Token) :
    (separate ts).countP Token.isPower = ts.countP Token.isPower := by
  rw [separate, countP_insertProducts]
  cases ts with
  | nil => rfl
  | cons t ts => exact countP_bindFrom t ts

theorem Linked.length_le_countP {c : List Token} (linked : Linked Token.isPower c) :
    c.length / 2 ≤ c.countP Token.isPower := by
  induction linked with
  | one operand => simp
  | more operand link tail ih =>
    rw [List.countP_cons, List.countP_cons, if_pos link]
    simp only [List.length_cons]
    omega

theorem powerDepth_le (ts : List Token) : powerDepth ts ≤ ts.countP Token.isPower := by
  have total : ∀ cs : List (List Token), (∀ c ∈ cs, c.length / 2 ≤ c.countP Token.isPower) →
      (cs.map fun c => c.length / 2).foldr max 0 ≤ cs.flatten.countP Token.isPower := by
    intro cs each
    induction cs with
    | nil => exact Nat.le_refl _
    | cons c cs ih =>
      have first := each c List.mem_cons_self
      have others := ih fun d hd => each d (List.mem_cons_of_mem _ hd)
      rw [List.map_cons, List.foldr_cons, List.flatten_cons, List.countP_append]
      omega
  have chained := total (chains Token.isPower (separate ts)) fun c hc => by
    rcases linked_of_mem_chains hc with ⟨t, rfl⟩ | h
    · simp
    · exact h.length_le_countP
  rwa [chains_flatten, countP_separate] at chained

/-- Words are resolved as they are, and groups are none of them. -/
theorem countP_resolved {p : Token → Bool}
    (words : ∀ family ts span, p (.group family ts span) = false) (f : Forest) :
    f.resolved.countP p ≤ f.tokens.countP p := by
  induction f with
  | nil => exact Nat.le_refl _
  | word t plain rest ih =>
    simp only [Forest.resolved, Forest.tokens, List.countP_cons]
    omega
  | group family opening closing inside rest _ ih =>
    simp only [Forest.resolved, Forest.tokens, List.countP_cons, List.countP_append, words]
    simp
    omega

theorem powerDepth_resolved_le (f : Forest) :
    powerDepth f.resolved ≤ f.tokens.countP Token.isPower :=
  Nat.le_trans (powerDepth_le f.resolved) (countP_resolved (fun _ _ _ => rfl) f)

/-- Only brackets inside brackets and powers take depth. -/
theorem Forest.depth_le (f : Forest) : f.depth ≤ f.height + f.tokens.countP Token.isPower + 1 := by
  induction f with
  | nil => exact Nat.le_refl _
  | word t plain rest ih =>
    simp only [depth, height, tokens, List.countP_cons]
    omega
  | group family opening closing inside rest ih ih' =>
    have powers := powerDepth_resolved_le inside
    have contents : (if inside.hasGroup then inside.depth else 0) ≤ inside.depth := by
      split <;> omega
    simp only [depth, height, tokens, List.countP_cons, List.countP_append]
    omega

theorem Forest.parsing_depth_le (f : Forest) :
    max f.depth (powerDepth f.resolved) ≤
      bracketDepth 0 f.tokens + f.tokens.countP Token.isPower + 1 := by
  have brackets := bracketDepth_forest f 0 []
  have depth := f.depth_le
  have powers := powerDepth_resolved_le f
  rw [List.append_nil, bracketDepth] at brackets
  omega

/-! ## Texts -/

theorem scan_eq_of_ne {code : String} (nonempty : code ≠ "") :
    scan code = .ok (scanFrom 0 none code.toList) := by
  unfold scan
  rw [if_neg]
  rwa [String.isEmpty_iff]

theorem parseWithin_eq {code : String} {f : Forest} (h : scan code = .ok f.tokens)
    (limit : Nat) :
    parseWithin limit code =
      atDepth limit (max f.depth (powerDepth f.resolved)) (combine f.resolved) := by
  rw [parseWithin, h]
  show (resolve limit f.tokens >>= combineWithin limit) = _
  rw [f.resolve_eq]
  exact atDepth_bind (combineWithin_eq limit f.resolved)

/-- A list with matched brackets is that of a forest. -/
theorem exists_forest_of_bracketFault {tokens : List Token}
    (matchable : ∀ t ∈ tokens, t.isMatchable = true) (h : bracketFault [] tokens = none) :
    ∃ f : Forest, tokens = f.tokens := by
  obtain ⟨o, outline⟩ := exists_outline h
  exact exists_forest matchable outline

/-- Brackets that do not match are found before the limit is looked at, if there is any
depth at all. -/
theorem parseWithin_of_bracketFault {code : String} {tokens : List Token} {fault : Fault}
    (scanned : scan code = .ok tokens) (h : bracketFault [] tokens = some fault) (limit : Nat) :
    parseWithin limit code = .error (if limit = 0 then .tooDeep else fault) := by
  have outline := ofTokens_error_iff.2 h
  rw [parseWithin, scanned]
  show (resolve limit tokens >>= combineWithin limit) = _
  cases limit with
  | zero => rfl
  | succ limit =>
    rw [resolve, outline]
    rfl

/-- A text with words in it is refused for its brackets, or these match and the limit
on the depth decides. -/
theorem parse_cases {code : String} (nonempty : code ≠ "") :
    ∃ tokens, scan code = .ok tokens ∧ (∀ t ∈ tokens, t.isWord = true) ∧
      ((∃ fault, bracketFault [] tokens = some fault ∧ ∀ limit,
          parseWithin limit code = .error (if limit = 0 then .tooDeep else fault)) ∨
        ∃ f : Forest, tokens = f.tokens ∧ bracketFault [] tokens = none ∧ ∀ limit,
          parseWithin limit code =
            atDepth limit (max f.depth (powerDepth f.resolved)) (combine f.resolved)) := by
  have scanned := scan_eq_of_ne nonempty
  have words := isWord_of_scan scanned
  refine ⟨_, scanned, words, ?_⟩
  cases checked : bracketFault [] (scanFrom 0 none code.toList) with
  | some fault => exact .inl ⟨fault, rfl, parseWithin_of_bracketFault scanned checked⟩
  | none =>
    obtain ⟨f, same⟩ := exists_forest_of_bracketFault
      (fun t ht => Token.isMatchable_of_isWord (words t ht)) checked
    rw [same] at scanned
    exact .inr ⟨f, same, rfl, parseWithin_eq scanned⟩

/-- What a text is read as, whatever the bound. -/
theorem exists_forest_of_parseWithin {limit : Nat} {code : String} {tree : List Token}
    (h : parseWithin limit code = .ok tree) :
    ∃ f : Forest, scan code = .ok f.tokens ∧ tree = combine f.resolved ∧
      ∀ t ∈ f.tokens, t.isWord = true := by
  rw [parseWithin] at h
  obtain ⟨tokens, scanned, h⟩ := exists_of_bind_eq_ok h
  obtain ⟨ts, resolved, combined⟩ := exists_of_bind_eq_ok h
  have words := isWord_of_scan scanned
  obtain ⟨f, rfl, rfl⟩ := exists_forest_of_resolve words resolved
  rw [combineWithin_eq] at combined
  exact ⟨f, scanned, eq_of_atDepth combined, words⟩

/-- A text is refused if it is empty, if its brackets do not match, with the first
bracket that does not fit, or else if it is too deep for the limit. Depth is no
greater than that of the brackets and the powers; it is not looked at before all
brackets have been checked, and the groups inside others always have outlines. -/
theorem parse_checks_brackets (limit : Nat) (code : String) :
    ((∃ place, parseWithin (limit + 1) code = .error ⟨.emptyInput, place⟩) ↔ code = "") ∧
    (code ≠ "" → ∃ tokens, scan code = .ok tokens ∧
      (∀ fault, (parseWithin (limit + 1) code = .error fault ∧
          fault.cause.category = .mismatchedBrackets) ↔
        bracketFault [] tokens = some fault) ∧
      (bracketFault [] tokens = none →
        (∀ us, Inner tokens us → ∃ o, Outline.ofTokens us = .ok o) ∧
        ∃ tree depth, depth ≤ bracketDepth 0 tokens + tokens.countP Token.isPower + 1 ∧
          ∀ limit, parseWithin limit code =
            if depth ≤ limit then .ok tree else .error .tooDeep)) := by
  refine ⟨⟨?_, ?_⟩, fun nonempty => ?_⟩
  · rintro ⟨place, h⟩
    by_contra nonempty
    obtain ⟨_, _, _, ⟨fault, checked, refused⟩ | ⟨f, _, _, read⟩⟩ := parse_cases nonempty
    · rw [refused, if_neg (Nat.succ_ne_zero limit)] at h
      cases h
      cases bracketFault_category checked
    · cases tooDeep_of_atDepth ((read (limit + 1)).symm.trans h)
  · rintro rfl
    exact ⟨none, rfl⟩
  · obtain ⟨tokens, scanned, _, ⟨refusal, checked, refused⟩ | ⟨f, rfl, balanced, read⟩⟩ :=
      parse_cases nonempty
    · refine ⟨tokens, scanned, fun fault => ⟨?_, ?_⟩, fun balanced => ?_⟩
      · rintro ⟨h, _⟩
        rw [refused, if_neg (Nat.succ_ne_zero limit)] at h
        cases h
        exact checked
      · intro checked
        have refused := parseWithin_of_bracketFault scanned checked (limit + 1)
        rw [if_neg (Nat.succ_ne_zero limit)] at refused
        exact ⟨refused, bracketFault_category checked⟩
      · rw [checked] at balanced
        cases balanced
    · refine ⟨_, scanned, fun fault => ⟨?_, ?_⟩, fun _ => ⟨?_, _, _, f.parsing_depth_le, read⟩⟩
      · rintro ⟨h, category⟩
        rw [tooDeep_of_atDepth ((read (limit + 1)).symm.trans h)] at category
        cases category
      · intro checked
        rw [balanced] at checked
        cases checked
      · exact fun us inner => exists_outline (bracketFault_of_inner inner)

example : parseWithin 1 "2+[(1]" = .error ⟨.wrongBracket "]" "(", some 5⟩ := by decide +kernel

end Calculator
