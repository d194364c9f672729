import Calculator.Proofs.Alike

/-!
# Places are for messages only

A calculation depends on the kinds and the texts of its words. Their places in the
text get into the messages and nowhere else.

* `Token.unplaced`: a token without its places.
* `combine_unplaced`, `resolve_unplaced`: reading does not look at places.
* `Evaluation.Like`: the same computation, but for the places of faults.
* `calculateTokens_unplaced`: the same words have the same outcome, up to the place
  of a fault.
-/

namespace Calculator

/-! ## Tokens without places -/

mutual

/-- The token without its place and those of its parts. -/
def Token.unplaced : Token → Token
  | .leaf kind lexeme _ => .leaf kind lexeme .unknown
  | .pointer level lexeme _ => .pointer level lexeme .unknown
  | .group family tokens _ => .group family (unplacedAll tokens) .unknown

/-- The tokens of a list without their places. -/
def unplacedAll : List Token → List Token
  | [] => []
  | t :: rest => t.unplaced :: unplacedAll rest

end

theorem unplacedAll_eq_map (ts : List Token) : unplacedAll ts = ts.map Token.unplaced := by
  induction ts with
  | nil => rfl
  | cons t ts ih => rw [unplacedAll, ih, List.map_cons]

theorem unplaced_group (family : Bracket) (ts : List Token) (span : Span) :
    (Token.group family ts span).unplaced = .group family (ts.map Token.unplaced) .unknown := by
  rw [Token.unplaced, unplacedAll_eq_map]

namespace Token

@[simp] theorem isBracket_unplaced (t : Token) : t.unplaced.isBracket = t.isBracket := by
  cases t with
  | leaf kind lexeme span => cases kind <;> rfl
  | pointer level lexeme span => rfl
  | group family tokens span => rfl

/-- Nothing is known of the first place. -/
def Nowhere (span _ : Span) : Prop := span = .unknown

mutual

theorem unplaced_alike : (t : Token) → t.unplaced.Alike Nowhere t
  | .leaf _ _ _ => .leaf rfl
  | .pointer _ _ _ => .pointer rfl
  | .group _ tokens _ => .group (unplacedAll_alike tokens) rfl

theorem unplacedAll_alike : (ts : List Token) → AllAlike Nowhere (unplacedAll ts) ts
  | [] => .nil
  | t :: rest => .cons t.unplaced_alike (unplacedAll_alike rest)

end

mutual

theorem eq_unplaced : (t : Token) → {u : Token} → u.Alike Nowhere t → u = t.unplaced
  | .leaf _ _ _, _, .leaf rfl => rfl
  | .pointer _ _ _, _, .pointer rfl => rfl
  | .group family tokens _, _, .group contents rfl =>
    congrArg (Token.group family · .unknown) (eq_unplacedAll tokens contents)

theorem eq_unplacedAll : (ts : List Token) → {us : List Token} → AllAlike Nowhere us ts →
    us = unplacedAll ts
  | [], _, .nil => rfl
  | t :: rest, _, .cons first others =>
    congrArg₂ List.cons (t.eq_unplaced first) (eq_unplacedAll rest others)

end

theorem map_unplaced_alike (ts : List Token) : AllAlike Nowhere (ts.map unplaced) ts := by
  rw [← unplacedAll_eq_map]
  exact unplacedAll_alike ts

theorem eq_map_unplaced {ts us : List Token} (h : AllAlike Nowhere us ts) :
    us = ts.map unplaced := by
  rw [← unplacedAll_eq_map]
  exact eq_unplacedAll ts h

theorem placing_nowhere : Placing Nowhere fun _ _ => True where
  enclosing {ss ss'} h := by
    have none : ss.filter Span.isKnown = [] := by
      induction h with
      | nil => rfl
      | cons first _ ih => rw [first, List.filter_cons_of_neg (by decide), ih]
    rw [Nowhere, Span.enclosing, none]
  position _ := trivial
  after _ := trivial

end Token

open Token

/-! ## Grouping -/

theorem combine_unplaced (ts : List Token) :
    combine (ts.map unplaced) = (combine ts).map unplaced :=
  eq_map_unplaced (combine_alike placing_nowhere (map_unplaced_alike ts))

theorem powersWithin_unplaced (limit : Nat) (ts : List Token) :
    powersWithin limit (ts.map unplaced) = powersWithin limit ts :=
  powersWithin_alike placing_nowhere limit (map_unplaced_alike ts)

/-! ## Readings -/

/-- The one reading is the other with a function applied to its result, or both end
with the same cause. -/
def Agrees {α β : Type} (g : α → β) (x : Except Fault β) (y : Except Fault α) : Prop :=
  x.mapError Fault.cause = (y.map g).mapError Fault.cause

namespace Agrees

variable {α β γ δ : Type} {g : α → β} {h : γ → δ}

theorem ok (a : α) : Agrees g (.ok (g a)) (.ok a) := rfl

theorem error {fault fault' : Fault} (same : fault.cause = fault'.cause) :
    Agrees g (.error fault) (.error fault') := congrArg Except.error same

theorem bind {x : Except Fault β} {y : Except Fault α} {f : β → Except Fault δ}
    {f' : α → Except Fault γ} (first : Agrees g x y) (next : ∀ a, Agrees h (f (g a)) (f' a)) :
    Agrees h (x >>= f) (y >>= f') := by
  cases x with
  | error fault =>
    cases y with
    | error fault' =>
      injection first with same
      exact .error same
    | ok a => cases first
  | ok b =>
    cases y with
    | error fault' => cases first
    | ok a =>
      injection first with same
      subst same
      exact next a

theorem map {x : Except Fault β} {y : Except Fault α} {f : β → δ} {f' : α → γ}
    (first : Agrees g x y) (same : ∀ a, f (g a) = h (f' a)) :
    Agrees h (x.map f) (y.map f') := by
  have next : ∀ a, Agrees h (Except.ok (f (g a))) (Except.ok (f' a)) := by
    intro a
    rw [same]
    exact .ok _
  exact bind first next

theorem mapM {f : β → Except Fault δ} {f' : α → Except Fault γ}
    (each : ∀ a, Agrees h (f (g a)) (f' a)) (as : List α) :
    Agrees (List.map h) ((as.map g).mapM f) (as.mapM f') := by
  induction as with
  | nil => exact .ok _
  | cons a as ih =>
    rw [List.map_cons, List.mapM_cons, List.mapM_cons]
    exact (each a).bind fun c => ih.bind fun cs => .ok (c :: cs)

end Agrees

/-! ## Outlines -/

def Opening.unplaced (o : Opening) : Opening := { o with span := .unknown }

def Enclosed.unplaced (e : Enclosed) : Enclosed :=
  ⟨e.tokens.map Token.unplaced, e.nested, .unknown⟩

def Level.unplaced (l : Level) : Level := ⟨l.tokens.map Token.unplaced, l.nested⟩

def Outline.unplaced (o : Outline) : Outline :=
  ⟨o.top.map Token.unplaced, o.groups.map Level.unplaced⟩

theorem enclose_unplaced (inner : Opening) (outer : List Opening) (ts : List Token) :
    Agrees Enclosed.unplaced
      (enclose inner.unplaced (outer.map Opening.unplaced) (ts.map unplaced))
      (enclose inner outer ts) := by
  induction inner, outer, ts using enclose_induction with
  | nil inner outer => exact .error rfl
  | other inner outer t ts other ih =>
    have other' : t.unplaced.isBracket = false := by rwa [isBracket_unplaced]
    rw [List.map_cons, enclose_other other, enclose_other other']
    exact ih.map fun e => rfl
  | opening inner outer family lexeme span ts ih => exact ih.map fun e => rfl
  | last inner lexeme span ts =>
    rw [enclose_last, List.map_cons, List.map_nil, Token.unplaced]
    exact congrArg (Except.mapError Fault.cause)
      (enclose_last inner.unplaced lexeme .unknown _)
  | next inner next outer lexeme span ts ih =>
    rw [enclose_next, List.map_cons, List.map_cons, Token.unplaced]
    exact (enclose_next inner.unplaced next.unplaced lexeme .unknown _ _).symm ▸
      ih.map fun e => rfl
  | wrong inner outer family lexeme span ts wrong =>
    have wrong' : family ≠ inner.unplaced.bracket := wrong
    rw [enclose_wrong wrong, List.map_cons, Token.unplaced, enclose_wrong wrong']
    exact .error rfl

theorem ofTokensFrom_unplaced (level : Nat) (ts : List Token) :
    Agrees Outline.unplaced (Outline.ofTokensFrom level (ts.map unplaced))
      (Outline.ofTokensFrom level ts) := by
  induction level, ts using outline_induction with
  | nil level =>
    rw [List.map_nil, Outline.ofTokensFrom]
    rfl
  | other level t ts other ih =>
    have other' : t.unplaced.isBracket = false := by rwa [isBracket_unplaced]
    rw [List.map_cons, ofTokensFrom_other other, ofTokensFrom_other other']
    exact ih.map fun o => rfl
  | opening level family lexeme span ts ih =>
    rw [List.map_cons, Token.unplaced, ofTokensFrom_opening, ofTokensFrom_opening]
    refine (enclose_unplaced ⟨family, lexeme, span⟩ [] ts).bind fun e => ?_
    have rest : (ts.map unplaced).drop (e.unplaced.tokens.length + 1) =
        (ts.drop (e.tokens.length + 1)).map unplaced := by
      rw [List.map_drop, Enclosed.unplaced, List.length_map]
    rw [rest]
    exact (ih (e.tokens.length + 1)).map fun o => rfl
  | closing level family lexeme span ts =>
    rw [List.map_cons, Token.unplaced, Outline.ofTokensFrom, Outline.ofTokensFrom]
    exact .error rfl

/-! ## Resolving -/

theorem combineWithin_unplaced (limit : Nat) (ts : List Token) :
    Agrees (List.map unplaced) (combineWithin limit (ts.map unplaced))
      (combineWithin limit ts) := by
  unfold combineWithin
  rw [powersWithin_unplaced, combine_unplaced]
  split
  · exact .ok _
  · exact .error rfl

theorem fill_unplaced (o : Outline) (limit : Nat)
    {inner : List Token → Except Fault (List Token)}
    (inside : ∀ ts, Agrees (List.map unplaced) (inner (ts.map unplaced)) (inner ts)) (t : Token) :
    Agrees unplaced (o.unplaced.fill limit inner t.unplaced) (o.fill limit inner t) := by
  cases t with
  | leaf kind lexeme span => rfl
  | group family tokens span => exact Agrees.ok (Token.group family tokens span)
  | pointer level lexeme span =>
    have levels : o.unplaced.levels = o.levels.map Level.unplaced := rfl
    unfold Outline.fill
    rw [Token.unplaced]
    simp only [levels, List.getElem?_map]
    cases o.levels[level]? with
    | none => rfl
    | some l =>
      simp only [Option.map_some, Level.unplaced]
      have combined : ∀ ts : List Token, Agrees unplaced
          (combineWithin limit (ts.map unplaced) >>= fun us =>
            .ok (.group (.ofLexeme lexeme) us .unknown))
          (combineWithin limit ts >>= fun us => .ok (.group (.ofLexeme lexeme) us span)) := by
        intro ts
        refine (combineWithin_unplaced limit ts).bind fun us => ?_
        rw [← unplaced_group _ us span]
        exact .ok _
      split
      · exact (inside l.tokens).bind combined
      · exact combined l.tokens

theorem resolve_unplaced (limit : Nat) (ts : List Token) :
    Agrees (List.map unplaced) (resolve limit (ts.map unplaced)) (resolve limit ts) := by
  induction limit generalizing ts with
  | zero => exact .error rfl
  | succ limit ih =>
    exact (ofTokensFrom_unplaced 0 ts).bind fun o =>
      .mapM (fill_unplaced o limit ih) o.top

/-! ## Evaluation -/

/-- The same result or the same cause, and the same memory. -/
def Evaluation.Like {α : Type} (e e' : Evaluation α) : Prop :=
  ∀ m, (e m).1.mapError Fault.cause = (e' m).1.mapError Fault.cause ∧ (e m).2 = (e' m).2

namespace Evaluation.Like

variable {α β : Type}

theorem refl (e : Evaluation α) : Like e e := fun _ => ⟨rfl, rfl⟩

theorem throw {fault fault' : Fault} (same : fault.cause = fault'.cause) :
    Like (throw fault : Evaluation α) (throw fault') :=
  fun _ => ⟨congrArg Except.error same, rfl⟩

theorem bind {e e' : Evaluation α} {f f' : α → Evaluation β} (first : Like e e')
    (next : ∀ a, Like (f a) (f' a)) : Like (e >>= f) (e' >>= f') := by
  intro m
  rw [bind_apply, bind_apply]
  obtain ⟨result, memory⟩ := first m
  rcases h : e m with ⟨fault | a, m'⟩
  · rcases h' : e' m with ⟨fault' | a', m''⟩
    · rw [h, h'] at result memory
      injection result with same
      exact ⟨congrArg Except.error same, memory⟩
    · rw [h, h'] at result
      cases result
  · rcases h' : e' m with ⟨fault' | a', m''⟩
    · rw [h, h'] at result
      cases result
    · rw [h, h'] at result memory
      injection result with same
      subst same memory
      exact next a m'

end Evaluation.Like

open Evaluation (Like)

theorem Evaluation.compares_like : Evaluation.Compares (fun _ _ => True) Like where
  pure _ := .refl _
  get := .refl _
  assign _ _ := .refl _
  throw _ _ _ _ := .throw rfl
  bind := .bind

theorem Operator.apply_like (op : Operator) (x y : Float) (position position' : Option Int) :
    Like (op.apply x y position) (op.apply x y position') :=
  op.apply_compares Evaluation.compares_like x y trivial

theorem evaluateWithin_unplaced (limit : Nat) (family : Bracket) (ts : List Token) :
    Like (evaluateWithin limit family (ts.map unplaced)) (evaluateWithin limit family ts) :=
  evaluateWithin_compares placing_nowhere Evaluation.compares_like limit 0 (fun _ _ => .refl _)
    family (map_unplaced_alike ts)

/-! ## Outcomes -/

/-- The same value or a fault with the same cause, and the same memory. -/
def Outcome.Like (o o' : Outcome) : Prop :=
  o.result.mapError Fault.cause = o'.result.mapError Fault.cause ∧ o.memory = o'.memory

theorem Evaluation.Like.outcome {e e' : Evaluation Float} (h : Like e e') (env : Environment) :
    (e.outcome env).Like (e'.outcome env) := h ⟨env, []⟩

namespace Outcome.Like

theorem symm {o o' : Outcome} (h : o.Like o') : o'.Like o := ⟨h.1.symm, h.2.symm⟩

theorem trans {o o' o'' : Outcome} (h : o.Like o') (h' : o'.Like o'') : o.Like o'' :=
  ⟨h.1.trans h'.1, h.2.trans h'.2⟩

end Outcome.Like

theorem calculateTokensWithin_unplaced (reading depth : Nat) (ts : List Token)
    (env : Environment) :
    (calculateTokensWithin reading depth (ts.map unplaced) env).Like
      (calculateTokensWithin reading depth ts env) := by
  have read : Agrees (List.map unplaced)
      (resolve reading (ts.map unplaced) >>= combineWithin reading)
      (resolve reading ts >>= combineWithin reading) :=
    (resolve_unplaced reading ts).bind (combineWithin_unplaced reading)
  unfold calculateTokensWithin
  generalize resolve reading (ts.map unplaced) >>= combineWithin reading = x at read
  generalize resolve reading ts >>= combineWithin reading = y at read
  cases x with
  | error fault =>
    cases y with
    | error fault' => exact ⟨by injection read with same; exact congrArg Except.error same, rfl⟩
    | ok tree => cases read
  | ok tree =>
    cases y with
    | error fault => cases read
    | ok tree' =>
      injection read with same
      subst same
      exact (evaluateWithin_unplaced depth .round tree').outcome env

/-- Words of the same kinds and texts have the same outcome, up to the place of a
fault. -/
theorem calculateTokensWithin_like {ts us : List Token} (h : ts.map unplaced = us.map unplaced)
    (reading depth : Nat) (env : Environment) :
    (calculateTokensWithin reading depth ts env).Like
      (calculateTokensWithin reading depth us env) := by
  have same := (calculateTokensWithin_unplaced reading depth ts env).symm
  rw [h] at same
  exact same.trans (calculateTokensWithin_unplaced reading depth us env)

end Calculator
