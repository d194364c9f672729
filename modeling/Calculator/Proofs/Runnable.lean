import Calculator.Proofs.Precedence

/-!
# What is evaluated to an end

Evaluation ends with a value only on lists of a few shapes, and the passes over
chains make such a list only out of one that is of these shapes itself.

* `Works`: a computation ends with a value for some memory.
* `Terms`: operands that work, with operators between them.
* `Runnable`: the shapes of lists that are evaluated to an end (`cases_of_runs`).
* `Bundles`: chains are put into one token each. What is runnable then was so
  before (`Runnable.of_chains`, `cases_of_settle`).
-/

namespace Calculator

open Evaluation

/-! ## Computations with a value -/

/-- The computation has a value from some memory on. -/
def Evaluation.Works {α : Type} (e : Evaluation α) : Prop := ∃ m a m', e m = (.ok a, m')

namespace Evaluation.Works

variable {α β : Type}

theorem of_bind {e : Evaluation α} {f : α → Evaluation β} (h : Works (e >>= f)) :
    Works e ∧ ∃ a, Works (f a) := by
  obtain ⟨m, b, m', h⟩ := h
  obtain ⟨a, m'', first, h⟩ := ok_of_bind h
  exact ⟨⟨m, a, m'', first⟩, a, m'', b, m', h⟩

theorem not_throw (fault : Fault) : ¬ Works (throw fault : Evaluation α) := by
  rintro ⟨m, a, m', h⟩
  cases h

end Evaluation.Works

/-- The token can be evaluated. -/
def Token.Accepted (t : Token) : Prop := ∃ k, Works (operandValue (evaluateWithin k) t)

/-- The contents of a group can be evaluated. -/
def Runs (ts : List Token) : Prop := ∃ k, Works (bodyValue (evaluateWithin k) ts)

theorem runs_of_works {k : Nat} {family : Bracket} {ts : List Token}
    (h : Works (evaluateWithin k family ts)) : Runs ts := by
  cases k with
  | zero => exact absurd h (Works.not_throw _)
  | succ k => exact ⟨k, h.of_bind.1⟩

theorem Token.Accepted.runs {family : Bracket} {ts : List Token} {span : Span}
    (h : (Token.group family ts span).Accepted) : Runs ts := by
  obtain ⟨k, h⟩ := h
  exact runs_of_works h

theorem Token.Accepted.isOperand {t : Token} (h : t.Accepted) : t.isOperand = true := by
  obtain ⟨k, h⟩ := h
  cases t with
  | leaf kind lexeme span =>
    cases kind with
    | number => rfl
    | identifier => rfl
    | _ => exact absurd h (Works.not_throw _)
  | pointer level lexeme span => exact absurd h (Works.not_throw _)
  | group family tokens span => rfl

theorem operator_of_works {t : Token} (h : Works t.operator) :
    ∃ (op : Operator) (mark : Word), t = mark.token (.operator op) := by
  cases t with
  | leaf kind lexeme span =>
    cases kind with
    | operator op => exact ⟨op, ⟨lexeme, span⟩, rfl⟩
    | _ => exact absurd h (Works.not_throw _)
  | pointer level lexeme span => exact absurd h (Works.not_throw _)
  | group family tokens span => exact absurd h (Works.not_throw _)

/-! ## Lists that are evaluated to an end -/

/-- Operands that can be evaluated, with operators between them. -/
inductive Terms : List Token → Prop where
  | one {t : Token} (operand : t.Accepted) : Terms [t]
  | more {t : Token} {rest : List Token} (operand : t.Accepted) (op : Operator) (mark : Word)
      (tail : Terms rest) : Terms (t :: mark.token (.operator op) :: rest)

theorem Terms.append {ts us : List Token} (left : Terms ts) (op : Operator) (mark : Word)
    (right : Terms us) : Terms (ts ++ mark.token (.operator op) :: us) := by
  induction left with
  | one operand => exact .more operand op mark right
  | more operand op' mark' _ ih => exact .more operand op' mark' ih

theorem Terms.split {t x : Token} {rest : List Token} (h : Terms (t :: x :: rest)) :
    t.Accepted ∧ Terms rest := by
  cases h with
  | more operand op mark tail => exact ⟨operand, tail⟩

theorem Terms.head {t : Token} {rest : List Token} (h : Terms (t :: rest)) : t.Accepted := by
  cases h with
  | one operand => exact operand
  | more operand op mark tail => exact operand

theorem Terms.operator {t x : Token} {rest : List Token} (h : Terms (t :: x :: rest)) :
    ∃ (op : Operator) (mark : Word), x = mark.token (.operator op) := by
  cases h with
  | more operand op mark tail => exact ⟨op, mark, rfl⟩

/-- No token is the name of a function in a call. -/
def Uncalled (ts : List Token) : Prop := ∀ t ∈ ts, t.shape ≠ .leaf .function

theorem Uncalled.tail {t : Token} {ts : List Token} (h : Uncalled (t :: ts)) : Uncalled ts :=
  fun x hx => h x (List.mem_cons_of_mem _ hx)

/-- What comes after an operand: nothing, or an operator and operands again. -/
def Continues (ts : List Token) : Prop :=
  ts = [] ∨ ∃ (op : Operator) (mark : Word) (rest : List Token),
    ts = mark.token (.operator op) :: rest ∧ Terms rest

theorem Terms.of_continues {t : Token} {ts : List Token} (first : t.Accepted)
    (h : Continues ts) : Terms (t :: ts) := by
  rcases h with rfl | ⟨op, mark, rest, rfl, terms⟩
  · exact .one first
  · exact .more first op mark terms

theorem continues_of_steps {k : Nat} {x : Float} {ts : List Token} (uncalled : Uncalled ts)
    (works : Works (steps (evaluateWithin k) x ts)) : Continues ts := by
  fun_induction steps (evaluateWithin k) x ts with
  | case1 x => exact .inl rfl
  | case2 x slot => exact absurd works (Works.not_throw _)
  | case3 x slot word span argument rest ih =>
    exact absurd rfl (uncalled (.leaf .function word span) (by simp))
  | case4 x slot t rest _ ih =>
    obtain ⟨isOperator, _, works'⟩ := works.of_bind
    obtain ⟨accepted, y, works''⟩ := works'.of_bind
    obtain ⟨_, z, after⟩ := works''.of_bind
    obtain ⟨op, mark, h⟩ := operator_of_works isOperator
    have tail := ih z uncalled.tail.tail after
    exact .inr ⟨op, mark, t :: rest, by rw [h], .of_continues ⟨k, accepted⟩ tail⟩

/-- What can be evaluated as a sum is a list of terms, or one with a sign in front. -/
theorem cases_of_sumValue {k : Nat} {ts : List Token} (uncalled : Uncalled ts)
    (works : Works (sumValue (evaluateWithin k) ts)) :
    Terms ts ∨ ∃ (op : Operator) (mark : Word) (rest : List Token), op.isSign = true ∧
      ts = mark.token (.operator op) :: rest ∧ Terms rest := by
  unfold sumValue at works
  split at works
  · exact absurd works (Works.not_throw _)
  · rename_i word span argument rest
    exact absurd rfl (uncalled (.leaf .function word span) (by simp))
  · rename_i t rest _
    split at works
    · rename_i sign
      rcases continues_of_steps uncalled works with h | ⟨op, mark, rest', h, terms⟩
      · cases h
      · injection h with h h'
        subst h h'
        exact .inr ⟨op, mark, rest, sign, rfl, terms⟩
    · obtain ⟨accepted, x, works'⟩ := works.of_bind
      exact .inl (.of_continues ⟨k, accepted⟩ (continues_of_steps uncalled.tail works'))

/-- The shapes of lists that are evaluated without an assignment. -/
inductive Runnable : List Token → Prop where
  | terms {ts : List Token} (terms : Terms ts) : Runnable ts
  | signed {op : Operator} {ts : List Token} (known : op.isSign = true) (mark : Word)
      (terms : Terms ts) : Runnable (mark.token (.operator op) :: ts)
  | marked {ts : List Token} (terms : Terms ts) (mark : Word) :
      Runnable (ts ++ [mark.token .factorial])

theorem cases_of_runs {ts : List Token} (uncalled : Uncalled ts) (runs : Runs ts) :
    Runnable ts ∨ ∃ (target mark : Word) (rest : List Token), Runs rest ∧
      ts = target.token .identifier :: mark.token .assign :: rest := by
  obtain ⟨k, works⟩ := runs
  unfold bodyValue at works
  split at works
  · rename_i name span lexeme place t rest
    exact .inr ⟨⟨name, span⟩, ⟨lexeme, place⟩, t :: rest, runs_of_works works.of_bind.1, rfl⟩
  · rename_i t lexeme span
    exact .inl (.marked (.one ⟨k, works.of_bind.1⟩) ⟨lexeme, span⟩)
  · rcases cases_of_sumValue uncalled works with terms | ⟨op, mark, rest, known, rfl, terms⟩
    · exact .inl (.terms terms)
    · exact .inl (.signed known mark terms)

/-! ## Chains that are evaluated to an end -/

section

variable {links : Token → Bool}

theorem uncalled_of_linked
    (operators : ∀ t, links t = true → ∃ (op : Operator) (mark : Word),
      t = mark.token (.operator op))
    {ts : List Token} (linked : Linked links ts) : Uncalled ts := by
  have of_operand : ∀ t : Token, t.isOperand = true → t.shape ≠ .leaf .function := by
    intro t operand h
    cases t with
    | leaf kind lexeme span =>
      injection h with h
      subst h
      cases operand
    | pointer level lexeme span => cases h
    | group family tokens span => cases h
  induction linked with
  | one operand =>
    intro t ht
    rw [List.mem_singleton.1 ht]
    exact of_operand _ operand
  | more operand link tail ih =>
    obtain ⟨op, mark, rfl⟩ := operators _ link
    intro t ht
    rcases List.mem_cons.1 ht with rfl | ht
    · exact of_operand _ operand
    · rcases List.mem_cons.1 ht with rfl | ht
      · intro h
        cases h
      · exact ih t ht

theorem last_of_linked {ts us : List Token} {t : Token} (linked : Linked links us)
    (h : us = ts ++ [t]) : t.isOperand = true := by
  have last : ∃ x, us.getLast? = some x ∧ x.isOperand = true := by
    clear h
    induction linked with
    | @one x operand => exact ⟨x, rfl, operand⟩
    | @more x op rest operand link tail ih =>
      obtain ⟨y, h, operand'⟩ := ih
      refine ⟨y, ?_, operand'⟩
      cases tail with
      | one _ => exact h
      | more _ _ _ => simpa using h
  obtain ⟨x, hx, operand⟩ := last
  rw [h, List.getLast?_concat] at hx
  injection hx with hx
  rwa [hx]

/-- A linked list that can be evaluated is one of terms. -/
theorem terms_of_linked
    (operators : ∀ t, links t = true → ∃ (op : Operator) (mark : Word),
      t = mark.token (.operator op))
    {ts : List Token} (linked : Linked links ts) (runs : Runs ts) : Terms ts := by
  have operand := linked.head
  rcases cases_of_runs (uncalled_of_linked operators linked) runs with
    runnable | ⟨target, mark, rest, _, rfl⟩
  · cases runnable with
    | terms terms => exact terms
    | signed known mark terms => cases operand
    | marked terms mark => exact absurd (last_of_linked linked rfl) Bool.false_ne_true
  · cases linked with
    | more _ link _ =>
      obtain ⟨op, w, h⟩ := operators _ link
      cases h

end

/-- Each chain is put into one token, in a way that evaluation sees through. -/
structure Bundles (links : Token → Bool) (bundle : List Token → Token) : Prop where
  leaf : ∀ {c : List Token} {kind : Kind} {w : Word}, bundle c = w.token kind → c = [w.token kind]
  terms : ∀ {c : List Token}, (∃ t, c = [t]) ∨ Linked links c → (bundle c).Accepted → Terms c

theorem lump_eq_leaf {ts : List Token} {kind : Kind} {w : Word} (h : lump ts = w.token kind) :
    ts = [w.token kind] := by
  rcases ts with _ | ⟨t, _ | ⟨u, ts⟩⟩
  · cases h
  · exact congrArg (· :: []) h
  · cases h

theorem nestPowers_eq_singleton {ts : List Token} {t : Token} (h : nestPowers ts = [t]) :
    ts = [t] := by
  rcases ts with _ | ⟨t, _ | ⟨op, _ | ⟨x, _ | ⟨y, rest⟩⟩⟩⟩
  · exact h
  · exact h
  · exact h
  · exact h
  · simp [nestPowers] at h

theorem operator_of_isProduct (t : Token) (h : t.isProduct = true) :
    ∃ (op : Operator) (mark : Word), t = mark.token (.operator op) := by
  unfold Token.isProduct at h
  split at h
  · exact ⟨_, ⟨_, _⟩, rfl⟩
  · cases h

theorem operator_of_isPower (t : Token) (h : t.isPower = true) :
    ∃ (op : Operator) (mark : Word), t = mark.token (.operator op) := by
  unfold Token.isPower at h
  split at h
  · exact ⟨_, ⟨_, _⟩, rfl⟩
  · cases h

theorem bundles_products : Bundles Token.isProduct lump where
  leaf := lump_eq_leaf
  terms := by
    rintro c (⟨t, rfl⟩ | linked) accepted
    · exact .one accepted
    · cases linked with
      | one operand => exact .one accepted
      | more operand link tail =>
        exact terms_of_linked operator_of_isProduct (.more operand link tail) accepted.runs

theorem bundles_powers : Bundles Token.isPower (lump ∘ nestPowers) where
  leaf := fun h => nestPowers_eq_singleton (lump_eq_leaf h)
  terms := by
    have of_linked : ∀ {c : List Token}, Linked Token.isPower c →
        (lump (nestPowers c)).Accepted → Terms c := by
      intro c linked accepted
      induction linked with
      | one operand => exact .one accepted
      | @more t op rest operand link tail ih =>
        obtain ⟨op', mark, rfl⟩ := operator_of_isPower op link
        rw [nestPowers_cons tail] at accepted
        have inner : (lump (nestPowers rest)).isOperand = true := by
          cases tail with
          | one operand => exact operand
          | more _ _ tail => cases tail <;> rfl
        have outer := terms_of_linked operator_of_isPower (.more operand link (.one inner))
          accepted.runs
        obtain ⟨accepted, last⟩ := outer.split
        cases last with
        | one accepted' => exact .more accepted op' mark (ih accepted')
    rintro c (⟨t, rfl⟩ | linked) accepted
    · exact .one accepted
    · exact of_linked linked accepted

theorem wrapped_products_eq (ts : List Token) :
    wrapped Token.isProduct id ts = (chains Token.isProduct ts).map lump := by
  have one : ∀ c, wrap id c = [lump c] := by
    rintro (_ | ⟨t, _ | ⟨u, c⟩⟩) <;> rfl
  rw [wrapped, funext one]
  exact List.map_eq_flatMap.symm

theorem wrapped_powers_eq (ts : List Token) :
    wrapped Token.isPower nestPowers ts =
      (chains Token.isPower ts).map (lump ∘ nestPowers) := by
  have one : ∀ c, wrap nestPowers c = [lump (nestPowers c)] := by
    rintro (_ | ⟨t, _ | ⟨u, _ | ⟨x, _ | ⟨y, c⟩⟩⟩⟩) <;> rfl
  rw [wrapped, funext one]
  exact List.map_eq_flatMap.symm

section

variable {links : Token → Bool} {bundle : List Token → Token} (bundles : Bundles links bundle)

include bundles

/-- Terms that are made of chains are made of terms. -/
theorem Terms.flatten {cs : List (List Token)}
    (chained : ∀ c ∈ cs, (∃ t, c = [t]) ∨ Linked links c) (h : Terms (cs.map bundle)) :
    Terms cs.flatten := by
  generalize e : cs.map bundle = ws at h
  induction h generalizing cs with
  | one operand =>
    obtain ⟨c, rfl, rfl⟩ := List.map_eq_singleton_iff.1 e
    rw [List.flatten_singleton]
    exact bundles.terms (chained c List.mem_cons_self) operand
  | more operand op mark tail ih =>
    obtain ⟨c, cs', rfl, rfl, e'⟩ := List.map_eq_cons_iff.1 e
    obtain ⟨d, others, rfl, hd, e''⟩ := List.map_eq_cons_iff.1 e'
    rw [List.flatten_cons, List.flatten_cons, bundles.leaf hd]
    exact (bundles.terms (chained c (by simp)) operand).append op mark
      (ih (fun c hc => chained c (by simp [hc])) e'')

/-- A list is of the shape that its chains have. -/
theorem Runnable.of_chains {ts : List Token} (h : Runnable ((chains links ts).map bundle)) :
    Runnable ts := by
  have chained : ∀ c ∈ chains links ts, (∃ t, c = [t]) ∨ Linked links c :=
    fun c hc => linked_of_mem_chains hc
  have flat := chains_flatten links ts
  revert h chained flat
  generalize chains links ts = cs
  intro h chained flat
  generalize e : cs.map bundle = ws at h
  cases h with
  | terms terms =>
    subst e
    rw [← flat]
    exact .terms (terms.flatten bundles chained)
  | signed known mark terms =>
    obtain ⟨d, cs, rfl, hd, rfl⟩ := List.map_eq_cons_iff.1 e
    rw [← flat, List.flatten_cons, bundles.leaf hd]
    exact .signed known mark (terms.flatten bundles fun c hc => chained c (by simp [hc]))
  | marked terms mark =>
    obtain ⟨front, back, rfl, rfl, e'⟩ := List.map_eq_append_iff.1 e
    obtain ⟨d, rfl, hd⟩ := List.map_eq_singleton_iff.1 e'
    rw [← flat, List.flatten_append, List.flatten_singleton, bundles.leaf hd]
    exact .marked (terms.flatten bundles fun c hc => chained c (by simp [hc])) mark

theorem uncalled_chains {ts : List Token} (uncalled : Uncalled ts) :
    Uncalled ((chains links ts).map bundle) := by
  intro t ht
  obtain ⟨c, hc, rfl⟩ := List.mem_map.1 ht
  cases h : bundle c with
  | leaf kind lexeme span =>
    have single : c = [.leaf kind lexeme span] := bundles.leaf (w := ⟨lexeme, span⟩) h
    refine uncalled (.leaf kind lexeme span) ?_
    rw [← chains_flatten links ts]
    exact List.mem_flatten.2 ⟨c, hc, by rw [single]; exact List.mem_singleton_self _⟩
  | pointer level lexeme span => intro h; cases h
  | group family tokens span => intro h; cases h

/-- An assignment at the front is in no chain. -/
theorem assigned_of_chains {ts rest : List Token} {target mark : Word}
    (h : (chains links ts).map bundle =
      target.token .identifier :: mark.token .assign :: rest) :
    ∃ rest', ts = target.token .identifier :: mark.token .assign :: rest' := by
  have flat := chains_flatten links ts
  obtain ⟨c, cs, hc, ht, h⟩ := List.map_eq_cons_iff.1 h
  obtain ⟨d, cs, rfl, hm, h⟩ := List.map_eq_cons_iff.1 h
  rw [hc, List.flatten_cons, List.flatten_cons, bundles.leaf ht, bundles.leaf hm] at flat
  exact ⟨cs.flatten, flat.symm⟩

end

theorem runs_settle {ts : List Token} (h : Runs (arrange ts)) : Runs (settle ts) := by
  rcases settle_eq ts with same | grouped
  · rwa [same]
  · rw [grouped]
    obtain ⟨k, works⟩ := h
    refine ⟨k + 1, ?_⟩
    rw [bodyValue_of_folded _ (.operand rfl), sumValue_operand _ rfl]
    show Works (bodyValue (evaluateWithin k) (arrange ts) >>= pure >>= pure)
    rwa [bind_pure, bind_pure]

/-- What the passes over chains make a list that can be evaluated of is a list of
that shape itself. -/
theorem cases_of_settle {ts : List Token} (uncalled : Uncalled ts) (runs : Runs (settle ts)) :
    Runnable ts ∨ ∃ (target mark : Word) (rest : List Token), Runs (settle rest) ∧
      ts = target.token .identifier :: mark.token .assign :: rest := by
  have form : settle ts = (chains Token.isProduct ((chains Token.isPower ts).map
      (lump ∘ nestPowers))).map lump := by
    rw [settle, wrapped_powers_eq, wrapped_products_eq]
  have uncalled' : Uncalled (settle ts) := by
    rw [form]
    exact uncalled_chains bundles_products (uncalled_chains bundles_powers uncalled)
  rcases cases_of_runs uncalled' runs with runnable | ⟨target, mark, rest, runs', h⟩
  · rw [form] at runnable
    exact .inl ((runnable.of_chains bundles_products).of_chains bundles_powers)
  -- The assignment mark is in no chain, so the passes go on after it as if alone.
  · obtain ⟨rest', h'⟩ := assigned_of_chains bundles_products (form.symm.trans h)
    obtain ⟨rest'', rfl⟩ := assigned_of_chains bundles_powers h'
    have border : (mark.token .assign).isOperand = false := rfl
    have e : target.token .identifier :: mark.token .assign :: rest =
        target.token .identifier :: mark.token .assign :: settle rest'' :=
      h.symm.trans (settle_append border rfl rfl [target.token .identifier] rest'')
    injection e with _ e
    injection e with _ e
    exact .inr ⟨target, mark, rest'', e ▸ runs', rfl⟩

end Calculator
