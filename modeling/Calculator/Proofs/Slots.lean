import Calculator.Session
import Calculator.Proofs.Alike

/-!
# Operator slots

After operands that have a value comes the slot of an operator. Whether anything
comes after the slot is looked at before what stands in it, so a slot at the very
end is reported as an end that came too soon, even if no operator stands there.

* `steps_append_of_ok`: operators are applied from the value that those before leave.
* `Summed`: operands and calls with operators between them.
* `evaluateWithin_append_of_ok`: the same of groups.
* `slotFault?`: what a slot is to be reported for.
* `evaluate_slot`: when it is reported for that, and for what else.
-/

namespace Calculator

open Evaluation

/-! ## Lists cut after a value -/

section

variable {group : GroupValue} {x y : Float} {ts : List Token} {m m' : Memory}

/-- A token with a value of its own begins no call. -/
theorem uncalled_of_ok {t : Token} (h : operandValue group t m = (.ok x, m')) (rest : List Token) :
    ∀ word span, t = .leaf .function word span → rest = [] := by
  rintro word span rfl
  cases h

theorem uncalled_of_sign {t : Token} (h : t.isSign = true) (rest : List Token) :
    ∀ word span, t = .leaf .function word span → rest = [] := by
  rintro word span rfl
  cases h

/-- Operators that are applied to the end leave a value and a memory, and those after
them go on from there. -/
theorem steps_append_of_ok (h : steps group x ts m = (.ok y, m')) (us : List Token) :
    steps group x (ts ++ us) m = steps group y us m' := by
  fun_induction steps group x ts generalizing m with
  | case1 x =>
    cases h
    rfl
  | case2 x slot => cases h
  | case3 x slot word span argument rest ih =>
    obtain ⟨op, m₁, first, h⟩ := ok_of_bind h
    obtain ⟨z, m₂, second, h⟩ := ok_of_bind h
    obtain ⟨result, m₃, third, h⟩ := ok_of_bind h
    rw [List.cons_append, List.cons_append, List.cons_append, steps, bind_of_ok first,
      bind_of_ok second, bind_of_ok third]
    exact ih _ h
  | case4 x slot t rest other ih =>
    -- As `t` has a value it names no function, so what is put behind is not its argument.
    obtain ⟨op, m₁, first, h⟩ := ok_of_bind h
    obtain ⟨z, m₂, second, h⟩ := ok_of_bind h
    obtain ⟨result, m₃, third, h⟩ := ok_of_bind h
    rw [List.cons_append, List.cons_append, steps_slot group x slot (uncalled_of_ok second _),
      bind_of_ok first, bind_of_ok second, bind_of_ok third]
    exact ih _ h

theorem sumValue_append_of_ok (h : sumValue group ts m = (.ok y, m')) (us : List Token) :
    sumValue group (ts ++ us) m = steps group y us m' := by
  revert h
  fun_cases sumValue group ts with
  | case1 =>
    intro h
    cases h
  | case2 word span argument rest =>
    intro h
    obtain ⟨x, m₁, first, h⟩ := ok_of_bind h
    rw [List.cons_append, List.cons_append, sumValue, bind_of_ok first]
    exact steps_append_of_ok h us
  | case3 t rest other sign =>
    intro h
    rw [List.cons_append, sumValue_first group (uncalled_of_sign sign _), if_pos sign,
      ← List.cons_append]
    exact steps_append_of_ok h us
  | case4 t rest other unsigned =>
    intro h
    obtain ⟨x, m₁, first, h⟩ := ok_of_bind h
    rw [List.cons_append, sumValue_first group (uncalled_of_ok first _), if_neg unsigned,
      bind_of_ok first]
    exact steps_append_of_ok h us

end

/-! ## Sums -/

/-- An operand: one token, or the name of a function before its argument. -/
inductive Operand : List Token → Prop where
  | single {t : Token} (operand : t.isOperand = true) : Operand [t]
  | call (name : Word) {t : Token} (argument : t.isOperand = true) :
      Operand [name.token .function, t]

/-- Operands and calls with operators between them, with or without a sign in front. -/
inductive Summed : List Token → Prop where
  | operand {ts : List Token} (operand : Operand ts) : Summed ts
  | signed {op : Operator} {ts : List Token} (known : op.isSign = true) (mark : Word)
      (operand : Operand ts) : Summed (mark.token (.operator op) :: ts)
  | step {ts us : List Token} (summed : Summed ts) (op : Operator) (mark : Word)
      (operand : Operand us) : Summed (ts ++ mark.token (.operator op) :: us)

theorem Operand.summands {ts : List Token} (h : Operand ts) : ∀ t ∈ ts, t.isSummand = true := by
  cases h with
  | single operand => exact Token.summands_of_isOperand operand
  | call name argument =>
    exact List.forall_mem_cons.2 ⟨rfl, Token.summands_of_isOperand argument⟩

theorem Summed.summands {ts : List Token} (h : Summed ts) : ∀ t ∈ ts, t.isSummand = true := by
  induction h with
  | operand operand => exact operand.summands
  | signed known mark operand => exact List.forall_mem_cons.2 ⟨rfl, operand.summands⟩
  | step summed op mark operand ih =>
    exact List.forall_mem_append.2 ⟨ih, List.forall_mem_cons.2 ⟨rfl, operand.summands⟩⟩

theorem Summed.ne_nil {ts : List Token} (h : Summed ts) : ts ≠ [] := by
  cases h with
  | operand operand => cases operand <;> exact List.cons_ne_nil _ _
  | signed => exact List.cons_ne_nil _ _
  | step => simp

theorem Summed.isSum_operator {ts : List Token} (h : Summed ts) (op : Operator) (mark : Word)
    (us : List Token) : isSum (ts ++ mark.token (.operator op) :: us) = true := by
  rcases ts with _ | ⟨t, _ | ⟨u, rest⟩⟩
  · exact absurd rfl h.ne_nil
  · exact isSum_cons_cons t rfl us
  · exact isSum_cons_cons t (h.summands u (by simp)) _

/-- What comes after a list with a value goes on from that value and the memory. -/
theorem evaluateWithin_append_of_ok {n : Nat} {family : Bracket} {ts : List Token} {x : Float}
    {m m' : Memory} (summed : Summed ts) (h : evaluateWithin n family ts m = (.ok x, m')) :
    ∃ (group : GroupValue) (y : Float), ∀ us, isSum (ts ++ us) = true →
      evaluateWithin n family (ts ++ us) m =
        (steps group y us >>= fun z => return family.apply z) m' := by
  cases n with
  | zero => cases h
  | succ n =>
    obtain ⟨y, m₁, body, h⟩ := ok_of_bind h
    cases h
    rw [bodyValue_of_isSum _ (isSum_of_summands summed.summands)] at body
    refine ⟨evaluateWithin n, y, fun us whole => ?_⟩
    rw [evaluateWithin, bodyValue_of_isSum _ whole, bind_apply, sumValue_append_of_ok body us,
      ← bind_apply]

/-! ## Slots -/

def Token.isOperator : Token → Bool
  | leaf (.operator _) _ _ => true
  | _ => false

/-- What a token in the slot of an operator is to be reported for, if anything: a
character that means nothing as soon as it is reached, anything else that is no operator
for being out of order, and an operator for having nothing after it. -/
def slotFault? : Token → List Token → Option Fault
  | .leaf (.operator op) lexeme span, [] =>
      some ⟨.incomplete, (Token.leaf (.operator op) lexeme span).after?⟩
  | .leaf (.operator _) _ _, _ :: _ => none
  | .leaf .illegal lexeme span, _ =>
      some ⟨.illegalCharacter lexeme, (Token.leaf .illegal lexeme span).position?⟩
  | t, _ => some ⟨.noOperator, t.position?⟩

/-- With something after it, a slot is read before everything that is after it. -/
theorem steps_reads_slot (group : GroupValue) (x : Float) {post : List Token} (more : post ≠ []) :
    ∃ next : Operator → Evaluation Float,
      ∀ slot, steps group x (slot :: post) = slot.operator >>= next := by
  obtain ⟨t, rest, rfl⟩ := List.exists_cons_of_ne_nil more
  -- The name of a function takes the token after it along, whatever the slot holds.
  by_cases call : ∃ word span, t = .leaf .function word span ∧ rest ≠ []
  · obtain ⟨word, span, rfl, others⟩ := call
    obtain ⟨argument, rest, rfl⟩ := List.exists_cons_of_ne_nil others
    exact ⟨_, fun _ => rfl⟩
  · refine ⟨_, fun slot => steps_slot group x slot fun word span same => ?_⟩
    by_contra others
    exact call ⟨word, span, same, others⟩

/-- A faulty slot with something after it ends the evaluation. -/
theorem operator_of_slotFault {t : Token} {post : List Token} {fault : Fault}
    (h : slotFault? t post = some fault) (more : post ≠ []) : t.operator = throw fault := by
  obtain ⟨u, rest, rfl⟩ := List.exists_cons_of_ne_nil more
  cases t with
  | leaf kind lexeme span => cases kind <;> cases h <;> rfl
  | pointer level lexeme span =>
    cases h
    rfl
  | group family tokens span =>
    cases h
    rfl

/-- Of the tokens in the last slot, it is the operators that something is missing after. -/
theorem slotFault?_incomplete_iff {t : Token} :
    slotFault? t [] = some ⟨.incomplete, t.after?⟩ ↔ t.isOperator = true := by
  cases t with
  | leaf kind lexeme span => cases kind <;> simp [slotFault?, Token.isOperator]
  | pointer level lexeme span => simp [slotFault?, Token.isOperator]
  | group family tokens span => simp [slotFault?, Token.isOperator]

/-! ## Outcomes -/

section

variable {limit : Nat} {family : Bracket} {pre post : List Token} {t : Token}
  {env : Environment} {x : Float}

/-- The outcome of a list is told by what is done from the value of its beginning on. -/
theorem outcome_append_of_ok (summed : Summed pre)
    (value : ((evaluateWithin limit family pre).outcome env).result = .ok x) :
    ∃ (group : GroupValue) (y : Float), ∀ us, isSum (pre ++ us) = true →
      (evaluateWithin limit family (pre ++ us)).outcome env =
        let e := steps group y us >>= fun z => return family.apply z
        ⟨(e ((evaluateWithin limit family pre).outcome env).memory).1,
          (e ((evaluateWithin limit family pre).outcome env).memory).2⟩ := by
  rcases run : evaluateWithin limit family pre ⟨env, []⟩ with ⟨r, m⟩
  have whole : (evaluateWithin limit family pre).outcome env = ⟨r, m⟩ := by
    rw [outcome_eq, run]
  rw [whole] at value ⊢
  cases value
  obtain ⟨group, y, next⟩ := evaluateWithin_append_of_ok summed run
  refine ⟨group, y, fun us sum => ?_⟩
  rw [outcome_eq, next us sum]

/-- Whatever stands in the last slot, the list is said to have ended too soon. -/
theorem outcome_last_slot (summed : Summed pre)
    (value : ((evaluateWithin limit family pre).outcome env).result = .ok x)
    (sum : isSum (pre ++ [t]) = true) :
    (evaluateWithin limit family (pre ++ [t])).outcome env =
      ⟨.error ⟨.incomplete, t.after?⟩,
        ((evaluateWithin limit family pre).outcome env).memory⟩ := by
  obtain ⟨group, y, next⟩ := outcome_append_of_ok summed value
  rw [next _ sum]
  rfl

theorem outcome_faulty_slot (summed : Summed pre)
    (value : ((evaluateWithin limit family pre).outcome env).result = .ok x)
    (sum : isSum (pre ++ t :: post) = true)
    (more : post ≠ []) {fault : Fault} (h : slotFault? t post = some fault) :
    (evaluateWithin limit family (pre ++ t :: post)).outcome env =
      ⟨.error fault, ((evaluateWithin limit family pre).outcome env).memory⟩ := by
  obtain ⟨group, y, next⟩ := outcome_append_of_ok summed value
  obtain ⟨step, reads⟩ := steps_reads_slot group y more
  rw [next _ sum, reads t, operator_of_slotFault h more]
  rfl

/-- The outcome does not tell how or where an operator was written that has something
after it. -/
theorem outcome_operator_slot (summed : Summed pre)
    (value : ((evaluateWithin limit family pre).outcome env).result = .ok x)
    (more : post ≠ []) (op : Operator) (mark mark' : Word) :
    (evaluateWithin limit family (pre ++ mark.token (.operator op) :: post)).outcome env =
      (evaluateWithin limit family (pre ++ mark'.token (.operator op) :: post)).outcome env := by
  obtain ⟨group, y, next⟩ := outcome_append_of_ok summed value
  obtain ⟨step, reads⟩ := steps_reads_slot group y more
  rw [next _ (summed.isSum_operator op mark post), next _ (summed.isSum_operator op mark' post),
    reads, reads]
  rfl

/-- Within any limit, a slot after operands with a value is reported for what it is to be
reported for exactly if it holds an operator or is not the last of the list. At the end of
the list it is said that the list ended too soon, though what stands in the slot may be at
fault. An operator with something after it is not reported. -/
theorem evaluate_slot (summed : Summed pre)
    (value : ((evaluateWithin limit family pre).outcome env).result = .ok x)
    (sum : isSum (pre ++ t :: post) = true) :
    let outcome (tokens : List Token) := (evaluateWithin limit family tokens).outcome env
    (∀ fault, slotFault? t post = some fault →
      (outcome (pre ++ t :: post) = ⟨.error fault, (outcome pre).memory⟩ ↔
        t.isOperator = true ∨ post ≠ [])) ∧
    (post = [] → outcome (pre ++ t :: post) =
      ⟨.error ⟨.incomplete, t.after?⟩, (outcome pre).memory⟩) ∧
    (∀ (op : Operator) (mark mark' : Word), post ≠ [] → t = mark.token (.operator op) →
      outcome (pre ++ t :: post) = outcome (pre ++ mark'.token (.operator op) :: post)) := by
  dsimp only
  refine ⟨fun fault documented => ?_, ?_, ?_⟩
  · cases post with
    | nil =>
      rw [outcome_last_slot summed value sum]
      constructor
      · intro reported
        cases reported
        exact .inl (slotFault?_incomplete_iff.1 documented)
      · rintro (operator | more)
        · rw [slotFault?_incomplete_iff.2 operator] at documented
          cases documented
          rfl
        · exact absurd rfl more
    | cons u rest =>
      have more := List.cons_ne_nil u rest
      exact ⟨fun _ => .inr more, fun _ => outcome_faulty_slot summed value sum more documented⟩
  · rintro rfl
    exact outcome_last_slot summed value sum
  · rintro op mark mark' more rfl
    exact outcome_operator_slot summed value more op mark mark'

theorem evaluate_slot_illegal :
    let word (kind : Kind) (lexeme : String) (place : Int) : Token :=
      .leaf kind lexeme ⟨place, place⟩
    let pre := [word (.operator .minus) "-" 0,
      .group .round [word .identifier "a" 2, word .assign "=" 3, word .number "2" 4] ⟨1, 5⟩,
      word (.operator .times) "*" 6, .leaf .function "sqrt" ⟨7, 10⟩, word .number "4" 12]
    let outcome := evaluate .round (pre ++ word .illegal "$" 14 :: [word .number "2" 16]) .empty
    outcome.result = .error ⟨.illegalCharacter "$", some 14⟩ ∧
      outcome.environment.get? "a" = some 2.0 := by
  intro word pre outcome
  have summed : Summed pre :=
    .step (.signed rfl ⟨"-", ⟨0, 0⟩⟩ (.single rfl)) .times ⟨"*", ⟨6, 6⟩⟩
      (.call ⟨"sqrt", ⟨7, 10⟩⟩ rfl)
  have value : (evaluate .round pre .empty).result = .ok (-4.0) := by decide +kernel
  have reported : outcome = ⟨.error ⟨.illegalCharacter "$", some 14⟩, _⟩ :=
    ((evaluate_slot summed value rfl).1 _ rfl).2 (.inr (List.cons_ne_nil _ _))
  rw [reported]
  exact ⟨rfl, by decide +kernel⟩

/-- A character that means nothing is not reported in the last slot. -/
theorem illegal_last_slot :
    let number : Token := .leaf .number "2" ⟨0, 0⟩
    let mark : Token := .leaf .illegal "$" ⟨2, 2⟩
    parse "2 $" = .ok ([number] ++ mark :: []) ∧ Summed [number] ∧
      (evaluate .round [number] .empty).result = .ok 2.0 ∧ isSum ([number] ++ mark :: []) = true ∧
      slotFault? mark [] = some ⟨.illegalCharacter "$", some 2⟩ ∧
      (evaluate .round ([number] ++ mark :: []) .empty).result = .error ⟨.incomplete, some 3⟩ :=
  ⟨by decide +kernel, .operand (.single rfl), by decide +kernel, rfl, rfl, by decide +kernel⟩

end

end Calculator
