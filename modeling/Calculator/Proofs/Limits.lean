import Calculator.Evaluation

/-!
# Evaluation without a limit

`evaluateWithin` gives up on groups that are too deep inside one another. These
notions keep that apart from what an evaluation does otherwise.

* `Evaluation.Approximates`: a computation gives up or does the same as another.
  Sequences of approximations approximate (`Approximates.bind`).
* `Evaluation.Faults`: every fault of a computation has a property. The contents of a
  group have it if the groups inside do, and all faults with a place (`bodyValue_faults`).
* `Evaluation.Finishes`: a computation does not give up. A group whose `reach` is
  below the limit finishes (`evaluateWithin_finishes`): it has no faults but those it
  would have without a limit (`evaluateWithin_genuine`).
-/

namespace Calculator

namespace Evaluation

variable {α β : Type}

/-! ## Approximation -/

/-- The computation ends for lack of depth, or it does the same as another. -/
def Approximates (e e' : Evaluation α) : Prop := ∀ m, (e m).1 = .error .tooDeep ∨ e m = e' m

theorem Approximates.refl (e : Evaluation α) : Approximates e e := fun _ => .inr rfl

theorem Approximates.of_tooDeep (e : Evaluation α) : Approximates (throw .tooDeep) e :=
  fun _ => .inl rfl

theorem Approximates.bind {e e' : Evaluation α} {f f' : α → Evaluation β}
    (he : Approximates e e') (hf : ∀ a, Approximates (f a) (f' a)) :
    Approximates (e >>= f) (e' >>= f') := by
  intro m
  rw [bind_apply, bind_apply]
  rcases he m with deep | same
  · rcases h : e m with ⟨result, m'⟩
    rw [h] at deep
    subst deep
    exact .inl rfl
  · rw [same]
    rcases e' m with ⟨_ | a, m'⟩
    · exact .inr rfl
    · exact hf a m'

/-! ## Faults of computations -/

section

variable {p : Fault → Prop}

/-- Every fault of the computation has a property. -/
def Faults (p : Fault → Prop) (e : Evaluation α) : Prop :=
  ∀ m fault, (e m).1 = .error fault → p fault

theorem Faults.pure (a : α) : Faults p (Pure.pure a : Evaluation α) := by
  intro m fault h
  cases h

theorem Faults.throw {fault : Fault} (h : p fault) : Faults p (throw fault : Evaluation α) := by
  intro m fault' same
  cases same
  exact h

theorem Faults.get : Faults p (MonadState.get : Evaluation Memory) := by
  intro m fault h
  cases h

theorem Faults.assign (name : String) (x : Float) :
    Faults p (modify (·.assign name x) : Evaluation Unit) := by
  intro m fault h
  cases h

theorem Faults.bind {e : Evaluation α} {f : α → Evaluation β} (he : Faults p e)
    (hf : ∀ a, Faults p (f a)) : Faults p (e >>= f) := by
  intro m fault
  rw [bind_apply]
  have first := he m
  rcases h : e m with ⟨_ | a, m'⟩
  · rw [h] at first
    intro same
    cases same
    exact first _ rfl
  · exact hf a m' fault

/-- Nothing comes after a fault. -/
theorem Faults.throw_bind {fault : Fault} (h : p fault) (f : α → Evaluation β) :
    Faults p ((MonadExcept.throw fault : Evaluation α) >>= f) := by
  intro m fault' same
  rw [bind_apply] at same
  cases same
  exact h

end

/-! ## Enough depth -/

/-- The computation does not end for lack of depth. -/
def Finishes (e : Evaluation α) : Prop := ∀ m, (e m).1 ≠ .error .tooDeep

theorem Approximates.eq {e e' : Evaluation α} (h : Approximates e e') (finishes : Finishes e) :
    e = e' := by
  funext m
  rcases h m with deep | same
  · exact absurd deep (finishes m)
  · exact same

end Evaluation

open Evaluation

/-! ## How deep a tree reaches -/

mutual

/-- How many groups and assignments stand inside one another in a token. -/
def Token.reach : Token → Nat
  | .leaf _ _ _ | .pointer _ _ _ => 0
  | .group _ tokens _ => reachAll tokens + 1

/-- An assignment mark puts what follows one step further inside. -/
def reachAll : List Token → Nat
  | [] => 0
  | .leaf .assign _ _ :: rest => reachAll rest + 1
  | t :: rest => max t.reach (reachAll rest)

end

theorem reach_le_reachAll (t : Token) (rest : List Token) :
    max t.reach (reachAll rest) ≤ reachAll (t :: rest) := by
  cases t with
  | leaf kind lexeme span => cases kind <;> simp [reachAll, Token.reach]
  | pointer level lexeme span => simp [reachAll]
  | group bracket tokens span => simp [reachAll]

/-! ## Faults of groups -/

/-- Faults of the text as a whole. -/
def Category.isGeneral : Category → Bool
  | .emptyInput | .nothingToEvaluate | .tooDeep => true
  | _ => false

section

variable {p : Fault → Prop}
  (particular : ∀ cause position, cause.category.isGeneral = false → p ⟨cause, position⟩)

include particular

theorem Operator.apply_faults (op : Operator) (x y : Float) (position : Option Int) :
    Faults p (op.apply x y position) := by
  unfold Operator.apply
  split
  · exact .throw (particular _ _ rfl)
  · exact .pure _

theorem Token.operator_faults (t : Token) : Faults p t.operator := by
  unfold Token.operator
  split
  · exact .pure _
  · exact .throw (particular _ _ rfl)
  · exact .throw (particular _ _ rfl)

omit particular in
theorem factorial_particular {x : Float} {cause : Cause}
    (h : Calculator.factorial x = .error cause) : cause.category.isGeneral = false := by
  unfold Calculator.factorial at h
  split at h
  · cases h; rfl
  · split at h
    · cases h; rfl
    · split at h
      · cases h
      · cases h; rfl

theorem factorialValue_faults (x : Float) (position : Option Int) :
    Faults p (factorialValue x position) := by
  unfold factorialValue
  split
  · exact .pure _
  · rename_i cause h
    exact .throw (particular _ _ (factorial_particular h))

section

variable {group : GroupValue} {depth : Nat}
  (inside : ∀ bracket tokens, reachAll tokens < depth → Faults p (group bracket tokens))

include inside

theorem operandValue_faults {t : Token} (h : t.reach ≤ depth) :
    Faults p (operandValue group t) := by
  unfold operandValue
  split
  · split
    · exact .pure _
    · exact .throw (particular _ _ rfl)
  · refine .bind .get fun m => ?_
    split
    · exact .pure _
    · exact .throw (particular _ _ rfl)
  · exact inside _ _ h
  · exact .throw (particular _ _ rfl)
  · exact .throw (particular _ _ rfl)
  · exact .throw (particular _ _ rfl)

theorem callValue_faults {word : String} {span : Span} {argument : Token}
    (h : argument.reach ≤ depth) : Faults p (callValue group word span argument) := by
  unfold callValue
  split
  · refine .bind (operandValue_faults particular inside h) fun x => ?_
    split
    · exact .throw (particular _ _ rfl)
    · split
      · exact .pure _
      · exact .throw (particular _ _ rfl)
  · exact .throw (particular _ _ rfl)

theorem steps_faults {tokens : List Token} (x : Float) (h : reachAll tokens ≤ depth) :
    Faults p (steps group x tokens) := by
  fun_induction steps group x tokens with
  | case1 x => exact .pure _
  | case2 x slot => exact .throw (particular _ _ rfl)
  | case3 x slot word span argument rest ih =>
    have hs := reach_le_reachAll slot (.leaf .function word span :: argument :: rest)
    have hf := reach_le_reachAll (.leaf .function word span) (argument :: rest)
    have ha := reach_le_reachAll argument rest
    refine .bind (Token.operator_faults particular _) fun op =>
      .bind (callValue_faults particular inside (by omega)) fun y =>
      .bind (Operator.apply_faults particular _ _ _ _) fun z => ih z (by omega)
  | case4 x slot t rest _ ih =>
    have hs := reach_le_reachAll slot (t :: rest)
    have ht := reach_le_reachAll t rest
    refine .bind (Token.operator_faults particular _) fun op =>
      .bind (operandValue_faults particular inside (by omega)) fun y =>
      .bind (Operator.apply_faults particular _ _ _ _) fun z => ih z (by omega)

variable (empty : p ⟨.nothingToEvaluate, none⟩)

include empty

theorem sumValue_faults {tokens : List Token} (h : reachAll tokens ≤ depth) :
    Faults p (sumValue group tokens) := by
  unfold sumValue
  split
  · exact .throw empty
  · rename_i word span argument rest
    have hf := reach_le_reachAll (.leaf .function word span) (argument :: rest)
    have ha := reach_le_reachAll argument rest
    exact .bind (callValue_faults particular inside (by omega)) fun x =>
      steps_faults particular inside x (by omega)
  · rename_i t rest _
    have ht := reach_le_reachAll t rest
    split
    · exact steps_faults particular inside _ h
    · exact .bind (operandValue_faults particular inside (by omega)) fun x =>
        steps_faults particular inside x (by omega)

theorem bodyValue_faults {tokens : List Token} (h : reachAll tokens ≤ depth) :
    Faults p (bodyValue group tokens) := by
  unfold bodyValue
  split
  · rename_i name span lexeme place t rest
    have hn := reach_le_reachAll (.leaf .identifier name span)
      (.leaf .assign lexeme place :: t :: rest)
    have hr : reachAll (.leaf .assign lexeme place :: t :: rest) = reachAll (t :: rest) + 1 := rfl
    exact .bind (inside _ _ (by omega)) fun x => .bind (.assign _ _) fun _ => .pure _
  · rename_i t lexeme span
    have ht := reach_le_reachAll t [.leaf .factorial lexeme span]
    exact .bind (operandValue_faults particular inside (by omega)) fun x =>
      factorialValue_faults particular _ _
  · exact sumValue_faults particular inside empty h

end

end

/-! ## Groups within the limit -/

/-- The fault is one of the calculation itself: there would be one without any limit. -/
def Fault.IsGenuine (fault : Fault) : Prop := fault.cause ≠ .tooDeep

/-- A group that reaches less deep than the limit has no other faults than without it. -/
theorem evaluateWithin_genuine {limit : Nat} {bracket : Bracket} {tokens : List Token}
    (h : reachAll tokens < limit) :
    Faults Fault.IsGenuine (evaluateWithin limit bracket tokens) := by
  have particular : ∀ cause position, cause.category.isGeneral = false →
      Fault.IsGenuine ⟨cause, position⟩ := by
    rintro cause position other rfl
    cases other
  have empty : Fault.IsGenuine ⟨.nothingToEvaluate, none⟩ := by simp [Fault.IsGenuine]
  induction limit generalizing bracket tokens with
  | zero => omega
  | succ limit ih =>
    exact .bind (bodyValue_faults particular (fun _ _ => ih) empty (by omega)) fun x => .pure _

/-- A group that reaches less deep than the limit is evaluated to an end. -/
theorem evaluateWithin_finishes {limit : Nat} {bracket : Bracket} {tokens : List Token}
    (h : reachAll tokens < limit) : Finishes (evaluateWithin limit bracket tokens) :=
  fun m same => evaluateWithin_genuine h m _ same rfl

/-! ## Places -/

/-- The fault has no place if it is one of the text as a whole. -/
def Fault.IsPlaced (fault : Fault) : Prop :=
  fault.cause.category.isGeneral = true → fault.position = none

theorem evaluateWithin_placed (limit : Nat) (bracket : Bracket) (tokens : List Token) :
    Faults Fault.IsPlaced (evaluateWithin limit bracket tokens) := by
  have particular : ∀ cause position, cause.category.isGeneral = false →
      Fault.IsPlaced ⟨cause, position⟩ := by
    intro cause position other general
    rw [other] at general
    cases general
  induction limit generalizing bracket tokens with
  | zero => exact .throw fun _ => rfl
  | succ limit ih =>
    exact .bind (bodyValue_faults particular (fun bracket tokens _ => ih bracket tokens)
      (fun _ => rfl) (Nat.le_refl _)) fun x => .pure _

end Calculator
