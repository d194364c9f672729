import Calculator.Proofs.Balance
import Calculator.Proofs.Respacing

/-!
# The value of an assignment

A name and an assignment mark in front of a text change nothing but the places of
faults: the text is read and evaluated as it is alone, and the value, if there is
one, is assigned.

* `Shifted`, `Moved`: places that are a number of characters further on.
* `scanFrom_shifted`: the words of a text that stands further on.
* `combine_assigned`: what is assigned is grouped as it is alone, up to one group
  around the whole.
* `Evaluation.Follows`: a computation gives up, or does the same as another with its
  faults at related places.
* `calculate_assignment`: the outcome of an assignment.
-/

namespace Calculator

open List (Forall₂)
open Text (isLetter)

/-! ## Places further on -/

/-- A place in the text, `n` characters further on than another. -/
structure Shifted (n : Nat) (s s' : Span) : Prop where
  start : 0 ≤ s'.start
  stop : 0 ≤ s'.stop
  eq : s = ⟨s'.start + n, s'.stop + n⟩

/-- Both places are in the text, the first one further on, or neither is. -/
inductive Moved (n : Nat) : Span → Span → Prop where
  | unknown : Moved n .unknown .unknown
  | known {s s' : Span} (shifted : Shifted n s s') : Moved n s s'

/-- The place to blame, `n` characters further on. -/
def Later (n : Nat) (p p' : Option Int) : Prop := p = p'.map (· + (n : Int))

namespace Shifted

variable {n : Nat} {s s' t t' : Span}

theorem isKnown (h : Shifted n s s') : s.isKnown = true ∧ s'.isKnown = true := by
  have start := h.start
  have ne : ∀ r : Span, 0 ≤ r.start → r.isKnown = true := by
    rintro r nonneg
    refine decide_eq_true ?_
    rintro rfl
    revert nonneg
    decide
  refine ⟨ne s ?_, ne s' start⟩
  rw [h.eq]
  show 0 ≤ s'.start + n
  omega

theorem join (h : Shifted n s s') (h' : Shifted n t t') : Shifted n (s.join t) (s'.join t') := by
  obtain ⟨start, stop, rfl⟩ := h
  obtain ⟨start', stop', rfl⟩ := h'
  refine ⟨?_, ?_, ?_⟩
  · show 0 ≤ min s'.start t'.start
    omega
  · show 0 ≤ max s'.stop t'.stop
    omega
  · simp only [Span.join, Span.mk.injEq]
    omega

theorem around (h : Shifted n s s') (h' : Shifted n t t') :
    Shifted n ⟨s.start, t.stop⟩ ⟨s'.start, t'.stop⟩ := by
  obtain ⟨start, _, rfl⟩ := h
  obtain ⟨_, stop', rfl⟩ := h'
  exact ⟨start, stop', rfl⟩

end Shifted

theorem moved_enclosing {n : Nat} {ss ss' : List Span} (h : Forall₂ (Moved n) ss ss') :
    Moved n (.enclosing ss) (.enclosing ss') := by
  have known : Forall₂ (Shifted n) (ss.filter Span.isKnown) (ss'.filter Span.isKnown) := by
    induction h with
    | nil => exact .nil
    | cons first _ ih =>
      cases first with
      | unknown =>
        have nowhere : ¬ Span.unknown.isKnown = true := by decide
        rwa [List.filter_cons_of_neg nowhere, List.filter_cons_of_neg nowhere]
      | known shifted =>
        rw [List.filter_cons_of_pos shifted.isKnown.1, List.filter_cons_of_pos shifted.isKnown.2]
        exact .cons shifted ih
  unfold Span.enclosing
  generalize ss.filter Span.isKnown = ks at known
  generalize ss'.filter Span.isKnown = ks' at known
  cases known with
  | nil => exact .unknown
  | cons first rest => exact .known (List.rel_foldl (fun _ _ h _ _ h' => h.join h') first rest)

theorem placing_moved (n : Nat) : Placing (Moved n) (Later n) where
  enclosing := moved_enclosing
  position {t t'} h := by
    unfold Later Token.position?
    generalize t.span = s at h
    generalize t'.span = s' at h
    cases h with
    | unknown => rfl
    | known shifted =>
      rw [if_pos shifted.isKnown.1, if_pos shifted.isKnown.2, shifted.eq]
      rfl
  after {t t'} h := by
    unfold Later Token.after?
    generalize t.span = s at h
    generalize t'.span = s' at h
    cases h with
    | unknown => rfl
    | known shifted =>
      rw [if_pos shifted.isKnown.1, if_pos shifted.isKnown.2, shifted.eq]
      exact congrArg some (Int.add_right_comm _ _ _)

/-! ## Words further on -/

theorem nextWord_eq_of_before {before before' : Option Char}
    (same : before.any endsOperand = before'.any endsOperand) (c : Char) (rest : List Char) :
    nextWord before c rest = nextWord before' c rest := by
  have signs : signsNumber before rest = signsNumber before' rest := by
    rw [signsNumber_eq, signsNumber_eq, same]
  rw [nextWord, signs, nextWord]

/-- The same words are found further on, if an operand ends before both texts or
before neither. -/
theorem scanFrom_shifted (n position : Nat) {before before' : Option Char}
    (same : before.any endsOperand = before'.any endsOperand) (cs : List Char) :
    AllAlike (Shifted n) (scanFrom (position + n) before cs) (scanFrom position before' cs) := by
  fun_induction scanFrom position before' cs generalizing before with
  | case1 =>
    rw [scanFrom]
    exact .nil
  | case2 position before' c rest gap ih =>
    rw [scanFrom, if_pos gap, Nat.add_right_comm]
    exact ih same
  | case3 position before' c rest gap word extent =>
    rename_i ih
    have further : position + n + word.2 + 1 = position + word.2 + 1 + n := by omega
    rw [scanFrom, if_neg gap, nextWord_eq_of_before same]
    refine .cons (.leaf ⟨?_, ?_, ?_⟩) ?_
    · exact Int.natCast_nonneg position
    · exact Int.add_nonneg (Int.natCast_nonneg _) (Int.natCast_nonneg _)
    · simp only [Span.mk.injEq, word]
      omega
    · show AllAlike _ (scanFrom (position + n + word.2 + 1) _ _) _
      rw [further]
      exact ih rfl

/-- The name and the assignment mark are words of their own, and no operand ends
before the text after them. -/
theorem scanFrom_assignment {name : List Char} (some : name ≠ [])
    (letters : ∀ c ∈ name, isLetter c = true) (cs : List Char) :
    ∃ span place, scanFrom 0 none (name ++ '=' :: cs) =
      .leaf .identifier (String.ofList name) span :: .leaf .assign "=" place ::
        scanFrom (0 + (name.length + 1)) (Option.some '=') cs := by
  cases name with
  | nil => exact absurd rfl some
  | cons c rest =>
    have letter := letters c List.mem_cons_self
    have others : ∀ d ∈ rest, isLetter d = true := fun d hd => letters d (List.mem_cons_of_mem _ hd)
    have word : nextWord none c (rest ++ '=' :: cs) = (.identifier, rest.length) := by
      rw [nextWord_letter none letter, List.takeWhile_append_of_pos others]
      simp [show isLetter '=' = false by decide]
    have kept : (c :: rest).filter (!isGap ·) = c :: rest := by
      rw [List.filter_eq_self]
      intro d hd
      rw [(letter_facts (letters d hd)).1]
      rfl
    have mark : ∀ before, nextWord before '=' cs = (.assign, 0) := fun before =>
      nextWord_symbol rfl (fun sign => nomatch sign)
    refine ⟨⟨(0 : Nat), (0 : Nat) + rest.length⟩,
      ⟨(0 + rest.length + 1 : Nat), (0 + rest.length + 1 : Nat) + (0 : Nat)⟩, ?_⟩
    rw [List.cons_append, scanFrom, (letter_facts letter).1]
    simp only [Bool.false_eq_true, if_false, word, List.take_left, List.drop_left, kept]
    rw [scanFrom]
    simp only [mark]
    rfl

/-! ## Reading -/

/-- Words further on have their brackets at the same places among them, and so they
are resolved alike. -/
theorem exists_forest_shifted {n : Nat} (f : Forest) (words : ∀ t ∈ f.tokens, t.isWord = true)
    {ts : List Token} (h : AllAlike (Shifted n) ts f.tokens) :
    ∃ f' : Forest, f'.tokens = ts ∧ AllAlike (Moved n) f'.resolved f.resolved := by
  induction f generalizing ts with
  | nil =>
    cases h
    exact ⟨.nil, rfl, .nil⟩
  | word t plain rest ih =>
    obtain _ | ⟨first, others⟩ := h
    obtain ⟨f', rfl, same⟩ := ih (fun x hx => words x (List.mem_cons_of_mem _ hx)) others
    have word := words t List.mem_cons_self
    cases first with
    | @leaf kind lexeme span span' place =>
      have plain' : (Token.leaf kind lexeme span).isPlain = true := by
        cases kind <;> first | rfl | cases plain
      exact ⟨.word _ plain' f', rfl, .cons (.leaf (.known place)) same⟩
    | pointer _ => cases word
    | group _ _ => cases word
  | group family opening closing inside rest ih ih' =>
    rw [Forest.tokens] at words h
    obtain _ | @⟨_, _, us, _, first, others⟩ := h
    have front := List.forall₂_take_append _ _ _ others
    have back := List.forall₂_drop_append _ _ _ others
    have parts := List.take_append_drop inside.tokens.length us
    generalize us.take inside.tokens.length = front' at front parts
    generalize us.drop inside.tokens.length = back' at back parts
    subst parts
    obtain _ | ⟨last, after⟩ := back
    obtain ⟨g, rfl, same⟩ := ih (fun x hx => words x (by simp [hx])) front
    obtain ⟨g', rfl, same'⟩ := ih' (fun x hx => words x (by simp [hx])) after
    cases first with
    | leaf place =>
      cases last with
      | leaf place' =>
        have contents := combine_alike (placing_moved n) same
        have place := place.around place'
        exact ⟨.group family _ _ g g', rfl, .cons (.group contents (.known place)) same'⟩

/-- A text that stands further on is resolved as it is alone, if no operand ends before
it. -/
theorem exists_forest_further {code : String} {f : Forest} (scanned : scan code = .ok f.tokens)
    (words : ∀ t ∈ f.tokens, t.isWord = true) (n : Nat) {before : Option Char}
    (loose : before.any endsOperand = false) :
    ∃ f' : Forest, f'.tokens = scanFrom n before code.toList ∧
      AllAlike (Moved n) f'.resolved f.resolved := by
  have apart : before.any endsOperand = none.any endsOperand := loose
  have further := scanFrom_shifted n 0 apart code.toList
  rw [Nat.zero_add, ← eq_scanFrom_of_scan scanned] at further
  exact exists_forest_shifted f words further

/-! ## Grouping -/

theorem groupChains_assigned {links : Token → Bool} {fold : List Token → List Token}
    (a b : Token) (operand : b.isOperand = false) (loose : links b = false) (ts : List Token) :
    groupChains links fold (a :: b :: ts) = a :: b :: wrapped links fold ts := by
  have parts : chains links (a :: b :: ts) = [a] :: [b] :: chains links ts :=
    chains_append operand loose [a] ts
  rw [groupChains, parts]
  rfl

/-- What is assigned is grouped as a list of its own, with a group around it if it is
one chain. -/
theorem combine_assigned (name mark : String) (span place : Span) (ts : List Token) :
    combine (.leaf .identifier name span :: .leaf .assign mark place :: ts) =
      .leaf .identifier name span :: .leaf .assign mark place :: settle (separate ts) := by
  have border : (Token.leaf .assign mark place).isOperand = false := rfl
  have apart := separate_append_operator border rfl [.leaf .identifier name span] ts
  rw [separate_singleton] at apart
  rw [combine_eq, ← List.singleton_append, apart, arrange]
  show groupChains _ _ (groupChains _ _ (_ :: _ :: separate ts)) = _
  rw [groupChains_assigned _ _ rfl rfl, groupChains_assigned _ _ rfl rfl]
  rfl

/-! ## Evaluation -/

/-- The same result, or the same cause at related places. -/
inductive SameResult (P : Option Int → Option Int → Prop) {α : Type} :
    Except Fault α → Except Fault α → Prop where
  | ok (a : α) : SameResult P (.ok a) (.ok a)
  | error (cause : Cause) {p p' : Option Int} (place : P p p') :
      SameResult P (.error ⟨cause, p⟩) (.error ⟨cause, p'⟩)

/-- The computation ends for lack of depth, or it comes to the same memory and result as
another, faults at related places. -/
def Evaluation.Follows (P : Option Int → Option Int → Prop) {α : Type}
    (e e' : Evaluation α) : Prop :=
  ∀ m, (e m).1 = .error .tooDeep ∨ SameResult P (e m).1 (e' m).1 ∧ (e m).2 = (e' m).2

namespace Evaluation

variable {P : Option Int → Option Int → Prop} {α β : Type}

theorem Follows.bind {e e' : Evaluation α} {f f' : α → Evaluation β} (first : Follows P e e')
    (next : ∀ a, Follows P (f a) (f' a)) : Follows P (e >>= f) (e' >>= f') := by
  intro m
  rw [bind_apply, bind_apply]
  rcases first m with deep | ⟨result, memory⟩
  · rcases h : e m with ⟨r, m'⟩
    rw [h] at deep
    obtain rfl : r = .error .tooDeep := deep
    exact .inl rfl
  · rcases h : e m with ⟨r, m'⟩
    rcases h' : e' m with ⟨r', m''⟩
    rw [h, h'] at result memory
    obtain rfl : m' = m'' := memory
    cases result with
    | ok a => exact next a m'
    | error cause place => exact .inr ⟨.error cause place, rfl⟩

theorem compares_follows : Compares P (Follows P) where
  pure a _ := .inr ⟨.ok a, rfl⟩
  get m := .inr ⟨.ok m, rfl⟩
  assign _ _ _ := .inr ⟨.ok (), rfl⟩
  throw cause _ _ place _ := .inr ⟨.error cause place, rfl⟩
  bind := .bind

end Evaluation

open Evaluation

theorem evaluateWithin_follows {R : Span → Span → Prop} {P : Option Int → Option Int → Prop}
    (placing : Placing R P) {ts ts' : List Token} (h : AllAlike R ts ts') (limit more : Nat) :
    Follows P (evaluateWithin limit .round ts) (evaluateWithin (limit + more) .round ts') :=
  evaluateWithin_compares placing compares_follows limit more (fun _ _ _ => .inl rfl) .round h

/-- A list that is one group has the value of the group. -/
theorem evaluateWithin_group (limit : Nat) (family : Bracket) (ts : List Token) (span : Span) :
    evaluateWithin (limit + 1) .round [.group family ts span] = evaluateWithin limit family ts := by
  show evaluateWithin limit family ts >>= pure >>= pure = _
  rw [bind_pure, bind_pure]

/-- A settled list takes one step more than one that is only arranged. -/
theorem settle_follows {R : Span → Span → Prop} {P : Option Int → Option Int → Prop}
    (placing : Placing R P) {ts ts' : List Token} (h : AllAlike R ts ts') (limit : Nat) :
    Follows P (evaluateWithin limit .round (settle ts))
      (evaluateWithin (limit + 1) .round (arrange ts')) := by
  have arranged := arrange_alike placing h
  rcases settle_eq ts with same | grouped
  · rw [same]
    exact evaluateWithin_follows placing arranged limit 1
  · rw [grouped]
    cases limit with
    | zero => exact fun _ => .inl rfl
    | succ limit =>
      rw [Token.grouping, evaluateWithin_group]
      exact evaluateWithin_follows placing arranged limit 2

/-- A computation and the assignment of its value. -/
def Evaluation.assigned (name : String) (e : Evaluation Float) : Evaluation Float := do
  let x ← e
  modify (·.assign name x)
  return x

theorem evaluateWithin_assigned (limit : Nat) (name mark : String) (span place : Span)
    {ts : List Token} (some : ts ≠ []) :
    evaluateWithin (limit + 1) .round
        (.leaf .identifier name span :: .leaf .assign mark place :: ts) =
      Evaluation.assigned name (evaluateWithin limit .round ts) := by
  obtain ⟨t, rest, rfl⟩ := List.exists_cons_of_ne_nil some
  exact bind_pure _

theorem Evaluation.Follows.assigned {n : Nat} {e e' : Evaluation Float}
    (follows : Follows (Later n) e e') (name : String) (env : Environment) :
    ((e.assigned name).outcome env).result = .error .tooDeep ∨
      (∀ x, (e'.outcome env).result = .ok x →
        ((e.assigned name).outcome env).result = .ok x ∧
        ((e.assigned name).outcome env).environment = (e'.outcome env).environment.set name x) ∧
      (∀ fault, (e'.outcome env).result = .error fault →
        ((e.assigned name).outcome env).result =
          .error ⟨fault.cause, fault.position.map (· + (n : Int))⟩ ∧
        ((e.assigned name).outcome env).environment = (e'.outcome env).environment) := by
  rw [outcome_eq, outcome_eq, Evaluation.assigned, bind_apply]
  rcases follows ⟨env, []⟩ with deep | ⟨result, memory⟩
  · rcases h : e ⟨env, []⟩ with ⟨r, m⟩
    rw [h] at deep
    obtain rfl : r = .error .tooDeep := deep
    exact .inl rfl
  · rcases h : e ⟨env, []⟩ with ⟨r, m⟩
    rcases h' : e' ⟨env, []⟩ with ⟨r', m'⟩
    rw [h, h'] at result memory
    obtain rfl : m = m' := memory
    refine .inr ⟨?_, ?_⟩
    · rintro x rfl
      cases result
      exact ⟨rfl, rfl⟩
    · rintro fault rfl
      cases result with
      | error cause place => exact ⟨by rw [place], rfl⟩

/-! ## Texts -/

theorem wrapped_ne_nil {links : Token → Bool} {fold : List Token → List Token} {ts : List Token}
    (some : ts ≠ []) : wrapped links fold ts ≠ [] := by
  have flat := chains_flatten links ts
  unfold wrapped
  generalize chains links ts = cs at flat
  rcases cs with _ | ⟨c, others⟩
  · exact absurd flat.symm some
  · rcases c with _ | ⟨t, _ | ⟨u, c⟩⟩ <;> exact List.cons_ne_nil _ _

theorem separate_ne_nil {ts : List Token} (some : ts ≠ []) : separate ts ≠ [] := by
  obtain ⟨t, rest, rfl⟩ := List.exists_cons_of_ne_nil some
  obtain ⟨x, back, bound⟩ := List.exists_cons_of_ne_nil (bindFrom_ne_nil t rest)
  obtain ⟨_, h⟩ := insertProducts_head x back
  rw [separate, bindCalls, bound, h]
  exact List.cons_ne_nil _ _

/-- What an assignment is read as: the words of the text are grouped further on. -/
theorem parse_assignment {name code : String} {f : Forest} (named : name ≠ "")
    (letters : ∀ c ∈ name.toList, isLetter c = true) (scanned : scan code = .ok f.tokens)
    (words : ∀ t ∈ f.tokens, t.isWord = true) :
    ∃ span place ts, AllAlike (Moved (name.length + 1)) ts f.resolved ∧
      ∀ limit, Yields (parseWithin limit (name ++ "=" ++ code))
        (.leaf .identifier name span :: .leaf .assign "=" place :: settle (separate ts)) := by
  have some : name.toList ≠ [] := fun none => named (String.toList_eq_nil_iff.1 none)
  obtain ⟨span, place, cut⟩ := scanFrom_assignment some letters code.toList
  have loose : (Option.some '=').any endsOperand = false := rfl
  obtain ⟨f', same, alike⟩ :=
    exists_forest_further scanned words (name.toList.length + 1) loose
  have read : scan (name ++ "=" ++ code) = .ok (Forest.word (.leaf .identifier name span) rfl
      (.word (.leaf .assign "=" place) rfl f')).tokens := by
    have spelled : (name ++ "=" ++ code).toList = name.toList ++ '=' :: code.toList := by simp
    have nonempty : name ++ "=" ++ code ≠ "" := by
      intro empty
      rw [empty] at spelled
      simp at spelled
    rw [scan_eq_of_ne nonempty, spelled, cut, String.ofList_toList, Nat.zero_add, ← same]
    rfl
  refine ⟨span, place, f'.resolved, ?_, fun limit => ?_⟩
  · rwa [String.length_toList] at alike
  · rw [parseWithin_eq read, atDepth]
    split
    · exact .inr (congrArg Except.ok (combine_assigned _ _ _ _ _))
    · exact .inl rfl

/-- A calculation that is not too deep evaluates what its text is read as, and has the
depth to do so. -/
theorem exists_depth_of_shallow {limits : Limits} {code : String} {tree : List Token}
    {env : Environment} (read : Yields (parseWithin limits.reading code) tree)
    (shallow : (calculateWithin limits code env).result ≠ .error .tooDeep) :
    ∃ limit, limits.evaluating = limit + 1 ∧
      calculateWithin limits code env = (evaluateWithin (limit + 1) .round tree).outcome env := by
  rcases read with deep | read
  · rw [calculateWithin, deep] at shallow
    exact absurd rfl shallow
  · obtain ⟨limit, depth⟩ : ∃ limit, limits.evaluating = limit + 1 := by
      refine Nat.exists_eq_succ_of_ne_zero fun none => shallow ?_
      rw [calculateWithin, read, none]
      rfl
    exact ⟨limit, depth, by rw [calculateWithin, read, ← depth]⟩

/-- A name and an assignment mark in front of a text that can be read. If the text has
a value, so has the whole, and the value is assigned at the end. If the text has a fault,
the whole has the same one, further on in the text, and assigns nothing. -/
theorem calculate_assignment {limits : Limits} {name code : String} {tree : List Token}
    (named : name ≠ "") (letters : ∀ c ∈ name.toList, isLetter c = true)
    (parsed : parseWithin limits.reading code = .ok tree) (some : scan code ≠ .ok [])
    (env : Environment)
    (shallow : (calculateWithin limits (name ++ "=" ++ code) env).result ≠ .error .tooDeep) :
    (∀ x, (calculateWithin limits code env).result = .ok x →
      (calculateWithin limits (name ++ "=" ++ code) env).result = .ok x ∧
      (calculateWithin limits (name ++ "=" ++ code) env).environment =
        (calculateWithin limits code env).environment.set name x) ∧
    (∀ fault, (calculateWithin limits code env).result = .error fault →
      (calculateWithin limits (name ++ "=" ++ code) env).result =
        .error ⟨fault.cause, fault.position.map (· + ((name.length + 1 : Nat) : Int))⟩ ∧
      (calculateWithin limits (name ++ "=" ++ code) env).environment =
        (calculateWithin limits code env).environment) := by
  obtain ⟨f, scanned, rfl, words⟩ := exists_forest_of_parseWithin parsed
  obtain ⟨span, place, ts, alike, read⟩ := parse_assignment named letters scanned words
  have nonempty : ts ≠ [] := by
    rintro rfl
    cases f with
    | nil => exact some scanned
    | word t plain rest => cases alike
    | group family opening closing inside rest => cases alike
  have settled : settle (separate ts) ≠ [] :=
    wrapped_ne_nil (wrapped_ne_nil (separate_ne_nil nonempty))
  obtain ⟨limit, depth, whole⟩ := exists_depth_of_shallow (read limits.reading) shallow
  rw [evaluateWithin_assigned limit name "=" span place settled] at whole
  have follows := settle_follows (placing_moved _) (separate_alike (placing_moved _) alike) limit
  have alone : calculateWithin limits code env =
      (evaluateWithin (limit + 1) .round (arrange (separate f.resolved))).outcome env := by
    rw [calculateWithin, parsed, ← depth]
    rfl
  rw [whole] at shallow ⊢
  rw [alone]
  rcases follows.assigned name env with deep | outcomes
  · exact absurd deep shallow
  · exact outcomes

theorem calculate_assignment_chained :
    (calculate "x=y = 2 (1 - 3)" .empty).result = .ok (-4.0) ∧
      (calculate "x=y = 2 (1 - 3)" .empty).environment =
        (calculate "y = 2 (1 - 3)" .empty).environment.set "x" (-4.0) := by
  have letters : ∀ c ∈ "x".toList, isLetter c = true := by
    intro c hc
    rw [show "x".toList = ['x'] by decide, List.mem_singleton] at hc
    rw [hc]
    exact Text.isLetter_of_isAlpha (by decide)
  cases parsed : parse "y = 2 (1 - 3)" with
  | error fault =>
    have read : (parse "y = 2 (1 - 3)").isOk = true := by decide +kernel
    rw [parsed] at read
    cases read
  | ok tree =>
    exact (calculate_assignment (by decide) letters parsed (by decide +kernel) .empty
      (by decide +kernel)).1 (-4.0) (by decide +kernel)

end Calculator
