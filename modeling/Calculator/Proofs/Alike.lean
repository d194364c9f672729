import Mathlib.Data.List.Forall2
import Calculator.Proofs.Precedence

/-!
# Tokens alike but for their places

Grouping and evaluating look at the kinds and the texts of tokens. Places get into
the spans of groups and into faults, and nowhere else.

* `Token.Alike`: two tokens differ in their places only, and these are related.
* `Placing`: what the relation of places has to respect.
* `combine_alike`, `powersWithin_alike`: alike lists are grouped alike.
* `Evaluation.Compares`: a relation of computations that sequences keep, and that
  holds of the same fault at related places. It holds of the evaluations of alike
  lists (`bodyValue_compares`).
-/

namespace Calculator

open List (Forall₂)

/-! ## Tokens -/

/-- The same token at related places. -/
inductive Token.Alike (R : Span → Span → Prop) : Token → Token → Prop where
  | leaf {kind : Kind} {lexeme : String} {span span' : Span} (place : R span span') :
      Alike R (.leaf kind lexeme span) (.leaf kind lexeme span')
  | pointer {level : Nat} {lexeme : String} {span span' : Span} (place : R span span') :
      Alike R (.pointer level lexeme span) (.pointer level lexeme span')
  | group {family : Bracket} {ts ts' : List Token} {span span' : Span}
      (contents : Forall₂ (Alike R) ts ts') (place : R span span') :
      Alike R (.group family ts span) (.group family ts' span')

/-- The same tokens at related places. -/
abbrev AllAlike (R : Span → Span → Prop) : List Token → List Token → Prop :=
  Forall₂ (Token.Alike R)

/-- A relation of places that spans around tokens keep, and the relation that it
makes of what is told to the reader. -/
structure Placing (R : Span → Span → Prop) (P : Option Int → Option Int → Prop) : Prop where
  enclosing : ∀ {ss ss' : List Span}, Forall₂ R ss ss' → R (.enclosing ss) (.enclosing ss')
  position : ∀ {t t' : Token}, R t.span t'.span → P t.position? t'.position?
  after : ∀ {t t' : Token}, R t.span t'.span → P t.after? t'.after?

namespace Token.Alike

variable {R : Span → Span → Prop} {t t' : Token}

theorem place (h : t.Alike R t') : R t.span t'.span := by
  cases h with
  | leaf place => exact place
  | pointer place => exact place
  | group _ place => exact place

theorem shape (h : t.Alike R t') : t.shape = t'.shape := by
  cases h <;> rfl

theorem isOperand (h : t.Alike R t') : t.isOperand = t'.isOperand := by
  cases h with
  | @leaf kind => cases kind <;> rfl
  | pointer _ => rfl
  | group _ _ => rfl

theorem isQuantity (h : t.Alike R t') : t.isQuantity = t'.isQuantity := by
  cases h with
  | @leaf kind => cases kind <;> rfl
  | pointer _ => rfl
  | group _ _ => rfl

theorem isFactorial (h : t.Alike R t') : t.isFactorial = t'.isFactorial := by
  cases h with
  | @leaf kind => cases kind <;> rfl
  | pointer _ => rfl
  | group _ _ => rfl

theorem isPower (h : t.Alike R t') : t.isPower = t'.isPower := by
  cases h with
  | @leaf kind => cases kind with
    | operator op => cases op <;> rfl
    | _ => rfl
  | pointer _ => rfl
  | group _ _ => rfl

theorem isProduct (h : t.Alike R t') : t.isProduct = t'.isProduct := by
  cases h with
  | @leaf kind => cases kind <;> rfl
  | pointer _ => rfl
  | group _ _ => rfl

theorem isSign (h : t.Alike R t') : t.isSign = t'.isSign := by
  cases h with
  | @leaf kind => cases kind <;> rfl
  | pointer _ => rfl
  | group _ _ => rfl

end Token.Alike

section

variable {R : Span → Span → Prop} {P : Option Int → Option Int → Prop}
variable {t t' : Token} {ts ts' : List Token}

theorem AllAlike.head_any {p : Token → Bool} (same : ∀ {t t'}, Token.Alike R t t' → p t = p t')
    (h : AllAlike R ts ts') : ts.head?.any p = ts'.head?.any p := by
  cases h with
  | nil => rfl
  | cons first _ => exact same first

/-! ## Grouping -/

section

variable (placing : Placing R P)

include placing

theorem grouping_alike (h : AllAlike R ts ts') :
    Token.Alike R (.grouping ts) (.grouping ts') := by
  refine .group h (placing.enclosing ?_)
  rw [List.forall₂_map_left_iff, List.forall₂_map_right_iff]
  exact h.imp fun _ _ => Token.Alike.place

theorem bind?_alike {held held' : Token} (hh : held.Alike R held') (ht : t.Alike R t') :
    Option.Rel (Token.Alike R) (bind? held t) (bind? held' t') := by
  unfold bind?
  rw [hh.isOperand, ht.isFactorial]
  split
  · exact .some (grouping_alike placing (.cons hh (.cons ht .nil)))
  · cases hh with
    | @leaf kind lexeme span span' place =>
      cases kind with
      | identifier =>
        simp only [ht.isQuantity]
        split
        · exact .some (grouping_alike placing (.cons (.leaf place) (.cons ht .nil)))
        · exact .none
      | _ => exact .none
    | pointer _ => exact .none
    | group _ _ => exact .none

theorem bindFrom_alike {held held' : Token} (hh : held.Alike R held') (h : AllAlike R ts ts') :
    AllAlike R (bindFrom held ts) (bindFrom held' ts') := by
  induction h generalizing held held' with
  | nil => exact .cons hh .nil
  | cons ht _ ih =>
    have bound := bind?_alike placing hh ht
    rw [bindFrom, bindFrom]
    generalize bind? held _ = x at bound
    generalize bind? held' _ = x' at bound
    cases bound with
    | none => exact .cons hh (ih ht)
    | some same => exact ih same

omit placing in
theorem insertProducts_alike (unknown : R .unknown .unknown) (h : AllAlike R ts ts') :
    AllAlike R (insertProducts ts) (insertProducts ts') := by
  induction h with
  | nil => exact .nil
  | cons ht rest ih =>
    rw [insertProducts, insertProducts, ht.isQuantity,
      AllAlike.head_any Token.Alike.isQuantity rest]
    split
    · exact .cons ht (.cons (.leaf unknown) ih)
    · exact .cons ht ih

theorem separate_alike (h : AllAlike R ts ts') : AllAlike R (separate ts) (separate ts') := by
  refine insertProducts_alike (placing.enclosing .nil) ?_
  cases h with
  | nil => exact .nil
  | cons ht rest => exact bindFrom_alike placing ht rest

omit placing in
theorem chains_alike {links : Token → Bool}
    (same : ∀ {t t'}, Token.Alike R t t' → links t = links t') (h : AllAlike R ts ts') :
    Forall₂ (AllAlike R) (chains links ts) (chains links ts') := by
  fun_induction chains links ts generalizing ts' with
  | case1 =>
    cases h
    exact .nil
  | case2 t =>
    cases h with
    | cons ht rest =>
      cases rest
      exact .cons (.cons ht .nil) .nil
  | case3 t op rest linked none ih =>
    simp [eq_nil_of_chains none] at linked
  | case4 t op rest linked chain others some ih =>
    obtain _ | ⟨ht, _ | ⟨hop, hrest⟩⟩ := h
    have inner := ih hrest
    rw [some] at inner
    rw [ht.isOperand, same hop, AllAlike.head_any Token.Alike.isOperand hrest] at linked
    generalize hc : chains links _ = cs at inner
    cases inner with
    | cons first tail =>
      rw [chains_cons_of_linked linked hc]
      exact .cons (.cons ht (.cons hop first)) tail
  | case5 t op rest apart ih =>
    obtain _ | ⟨ht, _ | ⟨hop, hrest⟩⟩ := h
    rw [ht.isOperand, same hop, AllAlike.head_any Token.Alike.isOperand hrest] at apart
    rw [chains, if_neg apart]
    exact .cons (.cons ht .nil) (ih (.cons hop hrest))

theorem nestPowers_alike (h : AllAlike R ts ts') : AllAlike R (nestPowers ts) (nestPowers ts') := by
  fun_induction nestPowers ts generalizing ts' with
  | case1 t op x y rest ih =>
    obtain _ | ⟨ht, _ | ⟨hop, hrest⟩⟩ := h
    have inner := ih hrest
    obtain _ | ⟨hx, _ | ⟨hy, hrest⟩⟩ := hrest
    exact .cons ht (.cons hop (.cons (grouping_alike placing inner) .nil))
  | case2 ts short =>
    rcases h with _ | ⟨ht, _ | ⟨hop, _ | ⟨hx, _ | ⟨hy, hrest⟩⟩⟩⟩
    · exact .nil
    · exact .cons ht .nil
    · exact .cons ht (.cons hop .nil)
    · exact .cons ht (.cons hop (.cons hx .nil))
    · exact absurd rfl (short _ _ _ _ _)

section

variable {links : Token → Bool} (same : ∀ {t t'}, Token.Alike R t t' → links t = links t')
  {fold : List Token → List Token}
  (folds : ∀ {ts ts'}, AllAlike R ts ts' → AllAlike R (fold ts) (fold ts'))

include same folds

theorem wrapped_alike (h : AllAlike R ts ts') :
    AllAlike R (wrapped links fold ts) (wrapped links fold ts') := by
  refine List.rel_flatMap (chains_alike same h) fun c c' hc => ?_
  rcases hc with _ | ⟨ht, _ | ⟨hu, rest⟩⟩
  · exact .cons (grouping_alike placing (folds .nil)) .nil
  · exact .cons ht .nil
  · exact .cons (grouping_alike placing (folds (.cons ht (.cons hu rest)))) .nil

theorem groupChains_alike (h : AllAlike R ts ts') :
    AllAlike R (groupChains links fold ts) (groupChains links fold ts') := by
  have parts := chains_alike same h
  have many := wrapped_alike placing same folds h
  unfold wrapped at many
  unfold groupChains
  generalize chains links ts = cs at parts many
  generalize chains links ts' = cs' at parts many
  rcases parts with _ | ⟨hc, _ | ⟨hd, others⟩⟩
  · exact many
  · exact folds hc
  · exact many

end

theorem arrange_alike (h : AllAlike R ts ts') : AllAlike R (arrange ts) (arrange ts') := by
  have whole : ∀ {us us' : List Token}, AllAlike R us us' → AllAlike R (id us) (id us') :=
    fun h => h
  exact groupChains_alike placing Token.Alike.isProduct whole
    (groupChains_alike placing Token.Alike.isPower (nestPowers_alike placing) h)

theorem combine_alike (h : AllAlike R ts ts') : AllAlike R (combine ts) (combine ts') :=
  arrange_alike placing (separate_alike placing h)

theorem powersWithin_alike (limit : Nat) (h : AllAlike R ts ts') :
    powersWithin limit ts = powersWithin limit ts' := by
  have lengths : ∀ {cs cs' : List (List Token)}, Forall₂ (AllAlike R) cs cs' →
      (cs.all fun c => c.length ≤ 2 * limit + 1) = cs'.all fun c => c.length ≤ 2 * limit + 1 := by
    intro cs cs' h
    induction h with
    | nil => rfl
    | cons hc _ ih => rw [List.all_cons, List.all_cons, hc.length_eq, ih]
  exact lengths (chains_alike Token.Alike.isPower (separate_alike placing h))

end

/-! ## Evaluation -/

/-- A relation of computations that sequences keep, and that holds of a fault at
related places. -/
structure Evaluation.Compares (P : Option Int → Option Int → Prop)
    (Q : {α : Type} → Evaluation α → Evaluation α → Prop) : Prop where
  pure : ∀ {α : Type} (a : α), Q (Pure.pure a) (Pure.pure a : Evaluation α)
  get : Q MonadState.get (MonadState.get : Evaluation Memory)
  assign : ∀ name x, Q (modify (·.assign name x)) (modify (·.assign name x) : Evaluation Unit)
  throw : ∀ {α : Type} (cause : Cause) {p p' : Option Int}, P p p' →
    Q (MonadExcept.throw ⟨cause, p⟩) (MonadExcept.throw ⟨cause, p'⟩ : Evaluation α)
  bind : ∀ {α β : Type} {e e' : Evaluation α} {f f' : α → Evaluation β},
    Q e e' → (∀ a, Q (f a) (f' a)) → Q (e >>= f) (e' >>= f')

theorem steps_slot (group : GroupValue) (x : Float) (slot : Token) {t : Token} {rest : List Token}
    (other : ∀ word span, t = .leaf .function word span → rest = []) :
    steps group x (slot :: t :: rest) =
      slot.operator >>= fun op => operandValue group t >>= fun y =>
        op.apply x y t.position? >>= fun z => steps group z rest := by
  cases t with
  | leaf kind lexeme span =>
    cases kind with
    | function =>
      obtain rfl := other lexeme span rfl
      rfl
    | _ => rfl
  | pointer level lexeme span => rfl
  | group family tokens span => rfl

theorem sumValue_first (group : GroupValue) {t : Token} {rest : List Token}
    (other : ∀ word span, t = .leaf .function word span → rest = []) :
    sumValue group (t :: rest) =
      if t.isSign then steps group 0.0 (t :: rest)
      else operandValue group t >>= fun x => steps group x rest := by
  cases t with
  | leaf kind lexeme span =>
    cases kind with
    | function =>
      obtain rfl := other lexeme span rfl
      rfl
    | _ => rfl
  | pointer level lexeme span => rfl
  | group family tokens span => rfl

theorem Token.Alike.eq_leaf {kind : Kind} {lexeme : String} {span : Span}
    (h : t.Alike R (.leaf kind lexeme span)) : ∃ place, t = .leaf kind lexeme place := by
  cases h with
  | leaf _ => exact ⟨_, rfl⟩

/-- Alike lists begin with a function and its argument both or neither. -/
theorem Token.Alike.no_call {rest rest' : List Token} (ht : t.Alike R t')
    (hrest : AllAlike R rest rest')
    (other : ∀ word span argument others,
      t = .leaf .function word span → rest = argument :: others → False) :
    ∀ word span, t' = .leaf .function word span → rest' = [] := by
  rintro word span rfl
  obtain ⟨place, rfl⟩ := ht.eq_leaf
  cases hrest with
  | nil => rfl
  | cons _ _ => exact absurd rfl (other word place _ _ rfl)

section

variable (placing : Placing R P) {Q : {α : Type} → Evaluation α → Evaluation α → Prop}
  (compares : Evaluation.Compares P Q)

include compares

theorem Operator.apply_compares (op : Operator) (x y : Float) {p p' : Option Int} (h : P p p') :
    Q (op.apply x y p) (op.apply x y p') := by
  unfold Operator.apply
  split
  · exact compares.throw _ h
  · exact compares.pure _

theorem factorialValue_compares (x : Float) {p p' : Option Int} (h : P p p') :
    Q (factorialValue x p) (factorialValue x p') := by
  unfold factorialValue
  split
  · exact compares.pure _
  · exact compares.throw _ h

include placing

theorem Token.operator_compares (h : t.Alike R t') : Q t.operator t'.operator := by
  have position := placing.position h.place
  cases h with
  | @leaf kind =>
    cases kind with
    | operator op => exact compares.pure op
    | _ => exact compares.throw _ position
  | pointer _ => exact compares.throw _ position
  | group _ _ => exact compares.throw _ position

variable {group group' : GroupValue}
  (inside : ∀ family {ts ts'}, AllAlike R ts ts' → Q (group family ts) (group' family ts'))

include inside

theorem operandValue_compares (h : t.Alike R t') :
    Q (operandValue group t) (operandValue group' t') := by
  have position := placing.position h.place
  have after := placing.after h.place
  cases h with
  | @leaf kind lexeme span span' place =>
    cases kind with
    | number =>
      simp only [operandValue]
      split
      · exact compares.pure _
      · exact compares.throw _ position
    | identifier =>
      refine compares.bind compares.get fun m => ?_
      split
      · exact compares.pure _
      · exact compares.throw _ position
    | function => exact compares.throw _ after
    | _ => exact compares.throw _ position
  | pointer _ => exact compares.throw _ position
  | group contents place => exact inside _ contents

theorem callValue_compares (word : String) {span span' : Span} (place : R span span')
    (h : t.Alike R t') : Q (callValue group word span t) (callValue group' word span' t') := by
  have name : Token.Alike R (.leaf .function word span) (.leaf .function word span') := .leaf place
  unfold callValue
  rw [h.isOperand]
  split
  · refine compares.bind (operandValue_compares placing compares inside h) fun x => ?_
    split
    · exact compares.throw _ (placing.position name.place)
    · split
      · exact compares.pure _
      · exact compares.throw _ (placing.position name.place)
  · exact compares.throw _ (placing.after name.place)

theorem steps_compares (x : Float) (h : AllAlike R ts ts') :
    Q (steps group x ts) (steps group' x ts') := by
  fun_induction steps group x ts generalizing ts' with
  | case1 x =>
    cases h
    exact compares.pure x
  | case2 x slot =>
    obtain _ | ⟨hs, _ | _⟩ := h
    exact compares.throw _ (placing.after hs.place)
  | case3 x slot word span argument rest ih =>
    obtain _ | ⟨hs, _ | ⟨hf, _ | ⟨ha, hrest⟩⟩⟩ := h
    have position := placing.position hf.place
    cases hf with
    | leaf place =>
      refine compares.bind (slot.operator_compares placing compares hs) fun op => ?_
      refine compares.bind (callValue_compares placing compares inside word place ha) fun y => ?_
      exact compares.bind (op.apply_compares compares x y position) fun z => ih z hrest
  | case4 x slot t rest other ih =>
    obtain _ | ⟨hs, _ | ⟨ht, hrest⟩⟩ := h
    rw [steps_slot group' x _ (ht.no_call hrest other)]
    refine compares.bind (slot.operator_compares placing compares hs) fun op => ?_
    refine compares.bind (operandValue_compares placing compares inside ht) fun y => ?_
    exact compares.bind (op.apply_compares compares x y (placing.position ht.place))
      fun z => ih z hrest

theorem sumValue_compares (h : AllAlike R ts ts') :
    Q (sumValue group ts) (sumValue group' ts') := by
  fun_cases sumValue group ts with
  | case1 =>
    cases h
    have nowhere : P none none := placing.position (grouping_alike placing .nil).place
    exact compares.throw _ nowhere
  | case2 word span argument rest =>
    obtain _ | ⟨hf, _ | ⟨ha, hrest⟩⟩ := h
    cases hf with
    | leaf place =>
      exact compares.bind (callValue_compares placing compares inside word place ha)
        fun x => steps_compares placing compares inside x hrest
  | case3 t rest other sign =>
    obtain _ | ⟨ht, hrest⟩ := h
    rw [ht.isSign] at sign
    rw [sumValue_first group' (ht.no_call hrest other), if_pos sign]
    exact steps_compares placing compares inside 0.0 (.cons ht hrest)
  | case4 t rest other sign =>
    obtain _ | ⟨ht, hrest⟩ := h
    rw [ht.isSign] at sign
    rw [sumValue_first group' (ht.no_call hrest other), if_neg sign]
    exact compares.bind (operandValue_compares placing compares inside ht)
      fun x => steps_compares placing compares inside x hrest

theorem bodyValue_compares (h : AllAlike R ts ts') :
    Q (bodyValue group ts) (bodyValue group' ts') := by
  fun_cases bodyValue group ts with
  | case1 name span lexeme place t rest =>
    obtain _ | ⟨hn, _ | ⟨hm, hrest⟩⟩ := h
    obtain _ | ⟨ht, hrest'⟩ := hrest
    cases hn
    cases hm
    refine compares.bind (inside .round (.cons ht hrest')) fun x => ?_
    exact compares.bind (compares.assign name x) fun _ => compares.pure x
  | case2 t lexeme span =>
    obtain _ | @⟨_, t', _, _, ht, _ | ⟨hm, _ | _⟩⟩ := h
    have position := placing.position hm.place
    cases hm with
    | @leaf _ _ _ span' place =>
      have body : bodyValue group' [t', .leaf .factorial lexeme span'] =
          operandValue group' t' >>= fun x =>
            factorialValue x (Token.leaf .factorial lexeme span').position? :=
        bodyValue_factorial group' t' ⟨lexeme, span'⟩
      rw [body]
      exact compares.bind (operandValue_compares placing compares inside ht)
        fun x => factorialValue_compares compares x position
  | case3 ts unassigned unmarked =>
    have body : bodyValue group' ts' = sumValue group' ts' := by
      unfold bodyValue
      split
      · obtain _ | ⟨hn, _ | ⟨hm, _ | ⟨_, _⟩⟩⟩ := h
        obtain ⟨_, rfl⟩ := hn.eq_leaf
        obtain ⟨_, rfl⟩ := hm.eq_leaf
        exact absurd rfl (unassigned _ _ _ _ _ _)
      · obtain _ | ⟨_, _ | ⟨hm, _ | _⟩⟩ := h
        obtain ⟨_, rfl⟩ := hm.eq_leaf
        exact absurd rfl (unmarked _ _ _)
      · rfl
    rw [body]
    exact sumValue_compares placing compares inside h

omit inside in
/-- A group is compared with an alike one that may be evaluated deeper, if giving up is
compared with what the deeper one does beyond the limit. -/
theorem evaluateWithin_compares (limit more : Nat)
    (beyond : ∀ family ts, Q (throw .tooDeep) (evaluateWithin more family ts))
    (family : Bracket) (h : AllAlike R ts ts') :
    Q (evaluateWithin limit family ts) (evaluateWithin (limit + more) family ts') := by
  induction limit generalizing family ts ts' with
  | zero =>
    rw [Nat.zero_add]
    exact beyond family ts'
  | succ limit ih =>
    rw [Nat.add_right_comm]
    have inside : ∀ family {ts ts' : List Token}, AllAlike R ts ts' →
        Q (evaluateWithin limit family ts) (evaluateWithin (limit + more) family ts') :=
      fun family _ _ h => ih family h
    exact compares.bind (bodyValue_compares placing compares inside h) fun x => compares.pure _

end

end

end Calculator
