import Calculator.Session
import Calculator.Diagnostic
import Calculator.Proofs.Sources

/-!
# Faults point at their causes

* `Cause.Concerns`: which words of a text a cause can be blamed on.
* `Fault.Blames`: a fault is placed at such a word, or right after it if something is
  missing there.
* `evaluateWithin_traced`: every fault of an evaluation is traced to one.
* `calculate_blames`: a fault of a calculation has a place in the text, where the word
  to blame stands, unless it is one of the text as a whole.
-/

namespace Calculator

/-! ## Whom to blame -/

/-- The words of a text that a cause concerns. -/
def Cause.Concerns (tokens : List Token) : Cause → Token → Prop
  | .unexpectedBracket lexeme, t | .wrongBracket lexeme _, t | .unclosedBracket lexeme, t
  | .noBracket lexeme, t => t.isBracket = true ∧ t.lexeme = lexeme
  | .illegalCharacter lexeme, t => t.shape = .leaf .illegal ∧ t.lexeme = lexeme
  | .unreadableNumber lexeme, t => t.shape = .leaf .number ∧ t.lexeme = lexeme
  | .unboundName name, t => t.shape = .leaf .identifier ∧ t.lexeme = name
  | .factorialOfNegative _, t | .factorialOfFraction _, t | .factorialTooLarge _, t =>
      t.shape = .leaf .factorial ∧ t.lexeme = "!"
  | .outsideDomain f _, t => t.shape = .leaf .identifier ∧ Function.called? t.lexeme = some f
  | .divisionByZero, t => ∃ front d back, tokens = front ++ d :: t :: back ∧
      d.shape = .leaf (.operator .divide) ∧ (d.lexeme = "/" ∨ d.lexeme = ":")
  | .noOperand _, _ | .noOperator, _ | .incomplete, _ | .noArgument _, _ => True
  | .emptyInput, _ | .tooDeep, _ | .nothingToEvaluate, _ => False

/-- Where a cause is placed for a word: at its start, or right after it if something
is missing there. -/
def Cause.place (cause : Cause) (t : Token) : Int :=
  if cause.category = .incomplete then t.span.stop + 1 else t.span.start

/-- The fault is placed at a word of the text that its cause concerns. -/
def Fault.Blames (tokens : List Token) (fault : Fault) : Prop :=
  ∃ t ∈ tokens, fault.cause.Concerns tokens t ∧ fault.position = some (fault.cause.place t)

/-- The fault is one of the text as a whole, or a word is to blame. -/
def Fault.Traced (tokens : List Token) (fault : Fault) : Prop :=
  fault.cause.category.isGeneral = true ∨ fault.Blames tokens

open Evaluation

/-! ## Words to blame -/

theorem lexeme_of_symbol {code : String} {tokens : List Token} (scanned : scan code = .ok tokens)
    {t : Token} (ht : t ∈ tokens) {kind : Kind} (shape : t.shape = .leaf kind)
    (number : kind ≠ .number) (identifier : kind ≠ .identifier) (illegal : kind ≠ .illegal) :
    ∃ c, symbol? c = some kind ∧ t.lexeme = String.ofList [c] := by
  obtain ⟨before, next, kind', shape', cut⟩ := cut_of_scan scanned ht
  rw [shape] at shape'
  cases shape'
  generalize text : t.lexeme.toList = cs at cut
  cases cut with
  | number _ => exact absurd rfl number
  | signed _ _ _ => exact absurd rfl number
  | identifier _ => exact absurd rfl identifier
  | @symbol c _ known _ => exact ⟨c, known, by rw [← text, String.ofList_toList]⟩
  | illegal _ _ _ _ => exact absurd rfl illegal

theorem symbol?_factorial {c : Char} (h : symbol? c = some .factorial) : c = '!' := by
  unfold symbol? at h
  split at h <;> first | rfl | cases h

theorem symbol?_divide {c : Char} (h : symbol? c = some (.operator .divide)) :
    c = '/' ∨ c = ':' := by
  unfold symbol? at h
  split at h <;> first | exact .inl rfl | exact .inr rfl | cases h

namespace Fault.Traced

variable {tokens : List Token} {cause : Cause} {p : Option Int} {w : Token}

theorem start (mem : w ∈ tokens) (concerns : cause.Concerns tokens w)
    (present : (cause.category == .incomplete) = false) (here : p = some w.span.start) :
    Traced tokens ⟨cause, p⟩ := by
  refine .inr ⟨w, mem, concerns, ?_⟩
  rw [here, Cause.place, if_neg (ne_of_beq_false present)]

theorem after (mem : w ∈ tokens) (concerns : cause.Concerns tokens w)
    (missing : cause.category = .incomplete) (here : p = some (w.span.stop + 1)) :
    Traced tokens ⟨cause, p⟩ := by
  refine .inr ⟨w, mem, concerns, ?_⟩
  rw [here, Cause.place, if_pos missing]

end Fault.Traced

section

variable {code : String} {tokens : List Token} (scanned : scan code = .ok tokens)

include scanned

theorem position?_of_mem {t w : Token} (hw : w ∈ tokens) (same : t.span = w.span) :
    t.position? = some w.span.start := by
  rw [Token.position?, same, if_pos ((inOrder_of_scan scanned).isKnown hw)]

theorem after?_of_mem {t w : Token} (hw : w ∈ tokens) (same : t.span = w.span) :
    t.after? = some (w.span.stop + 1) := by
  rw [Token.after?, same, if_pos ((inOrder_of_scan scanned).isKnown hw)]

/-- A token is placed where its first word starts and its last one ends. -/
theorem ends_of_standsFor {t : Token} {words : List Token} (stands : t.StandsFor words)
    (written : t ≠ impliedTimes) (part : words <:+: tokens) :
    (∃ w rest, words = w :: rest ∧ w ∈ tokens ∧ t.position? = some w.span.start) ∧
      ∃ w ∈ tokens, t.after? = some (w.span.stop + 1) := by
  have some := stands.ne_nil written
  have order := (inOrder_of_scan scanned).sublist part.sublist
  have known : t.span.isKnown = true := by
    rw [stands.span]
    exact isKnown_extent order some
  obtain ⟨last, mem, stop⟩ := exists_extent_stop some
  obtain ⟨w, rest, rfl⟩ := List.exists_cons_of_ne_nil some
  refine ⟨⟨w, rest, rfl, part.subset List.mem_cons_self, ?_⟩, last, part.subset mem, ?_⟩
  · rw [Token.position?, if_pos known, stands.span, extent_start]
  · rw [Token.after?, if_pos known, stands.span, stop]

/-! ## Evaluation -/

section

variable {group : GroupValue}
  (inside : ∀ family {ts words}, StandAll ts words → Fenced false ts → words <:+: tokens →
    Faults (Fault.Traced tokens) (group family ts))

include inside

theorem operandValue_traced {t : Token} {words : List Token} (stands : t.StandsFor words)
    (written : t ≠ impliedTimes) (part : words <:+: tokens) :
    Faults (Fault.Traced tokens) (operandValue group t) := by
  cases stands with
  | word plain word =>
    have mem : t ∈ tokens := part.subset List.mem_cons_self
    have here := position?_of_mem scanned mem (Eq.refl t.span)
    cases t with
    | leaf kind lexeme span =>
      cases kind with
      | number =>
        simp only [operandValue]
        split
        · exact .pure _
        · exact .throw (.start mem ⟨rfl, rfl⟩ rfl here)
      | identifier =>
        refine .bind .get fun m => ?_
        split
        · exact .pure _
        · exact .throw (.start mem ⟨rfl, rfl⟩ rfl here)
      | illegal => exact .throw (.start mem ⟨rfl, rfl⟩ rfl here)
      | function => cases word
      | _ => exact .throw (.start mem trivial rfl here)
    | pointer level lexeme span => cases word
    | group family ts span => cases word
  | function name known =>
    have mem : name.token .identifier ∈ tokens := part.subset List.mem_cons_self
    exact .throw (.after mem trivial rfl (after?_of_mem scanned mem rfl))
  | implied => exact absurd rfl written
  | bracket family opening closing contents fenced =>
    refine inside family contents fenced (.trans ?_ part)
    exact (List.prefix_append _ _).isInfix.trans (List.suffix_cons _ _).isInfix
  | grouping contents fenced some place => exact inside .round contents fenced part

theorem callValue_traced {word : String} {span : Span} {f : Function}
    (known : Function.called? word = some f) (mem : .leaf .identifier word span ∈ tokens)
    {argument : Token} {words : List Token} (stands : argument.StandsFor words)
    (part : words <:+: tokens) :
    Faults (Fault.Traced tokens) (callValue group word span argument) := by
  unfold callValue
  split
  · rename_i operand
    refine .bind (operandValue_traced scanned inside stands (written_of_isOperand operand) part)
      fun x => ?_
    rw [known]
    simp only
    split
    · exact .pure _
    · exact .throw (.start mem ⟨rfl, known⟩ rfl (position?_of_mem scanned mem rfl))
  · exact .throw (.after mem trivial rfl (after?_of_mem scanned mem rfl))

end

/-- An operator is taken from a slot, or what stands there is to blame. -/
theorem slot_traced {slot : Token} {words : List Token} (stands : slot.StandsFor words)
    (part : words <:+: tokens) {next : Operator → Evaluation Float}
    (operator : ∀ op lexeme span, slot = .leaf (.operator op) lexeme span →
      Faults (Fault.Traced tokens) (next op)) :
    Faults (Fault.Traced tokens) (slot.operator >>= next) := by
  have blamed : ∀ {cause : Cause}, slot ≠ impliedTimes → (∀ w, cause.Concerns tokens w) →
      (cause.category == .incomplete) = false →
      Faults (Fault.Traced tokens)
        ((throw ⟨cause, slot.position?⟩ : Evaluation Operator) >>= next) := by
    intro cause written concerns present
    obtain ⟨w, rest, _, mem, here⟩ := (ends_of_standsFor scanned stands written part).1
    exact .throw_bind (.start mem (concerns w) present here) next
  cases slot with
  | leaf kind lexeme span =>
    cases kind with
    | operator op => exact operator op lexeme span rfl
    | illegal =>
      cases stands with
      | word plain word =>
        have mem := part.subset List.mem_cons_self
        exact .throw_bind (.start mem ⟨rfl, rfl⟩ rfl (position?_of_mem scanned mem rfl)) next
    | _ => exact blamed (by simp [impliedTimes]) (fun _ => trivial) rfl
  | pointer level lexeme span => exact blamed (by simp [impliedTimes]) (fun _ => trivial) rfl
  | group family ts span => exact blamed (by simp [impliedTimes]) (fun _ => trivial) rfl

/-- The divisor follows directly on the mark of the division. -/
theorem apply_traced {op : Operator} {lexeme : String} {span : Span} {t : Token}
    {words words' : List Token} (mark : (Token.leaf (.operator op) lexeme span).StandsFor words)
    (stands : t.StandsFor words') (written : t ≠ impliedTimes)
    (part : words ++ words' <:+: tokens) (x y : Float) :
    Faults (Fault.Traced tokens) (op.apply x y t.position?) := by
  unfold Operator.apply
  split
  · rename_i division
    obtain ⟨rfl, _⟩ := division
    have right := (List.suffix_append words words').isInfix.trans part
    obtain ⟨⟨w, rest, rfl, mem, here⟩, _⟩ := ends_of_standsFor scanned stands written right
    cases mark with
    | word plain word =>
      have mark := part.subset List.mem_cons_self
      obtain ⟨front, back, rfl⟩ := part
      refine .throw (.start mem ⟨front, .leaf (.operator .divide) lexeme span, rest ++ back,
        by simp, rfl, ?_⟩ rfl here)
      have shape : (Token.leaf (.operator .divide) lexeme span).shape =
          .leaf (.operator .divide) := rfl
      obtain ⟨c, symbol, text⟩ := lexeme_of_symbol scanned mark shape (by simp) (by simp) (by simp)
      rcases symbol?_divide symbol with rfl | rfl
      · exact .inl text
      · exact .inr text
  · exact .pure _

omit scanned in
theorem isInfix_left {front back : List Token} (h : front ++ back <:+: tokens) :
    front <:+: tokens := (List.prefix_append front back).isInfix.trans h

omit scanned in
theorem isInfix_right {front back : List Token} (h : front ++ back <:+: tokens) :
    back <:+: tokens := (List.suffix_append front back).isInfix.trans h

omit scanned in
theorem Token.StandsFor.of_function {word : String} {span : Span} {words : List Token}
    (h : (Token.leaf .function word span).StandsFor words) :
    ∃ f, Function.called? word = some f ∧ words = [.leaf .identifier word span] := by
  generalize same : Token.leaf .function word span = t at h
  cases h with
  | word plain word =>
    subst same
    cases word
  | @function name f known =>
    cases same
    exact ⟨f, known, rfl⟩
  | implied => cases same
  | bracket _ _ _ _ _ => cases same
  | grouping _ _ _ _ => cases same

omit scanned in
/-- No implied product comes right after a slot with an operator. -/
theorem Fenced.after_slot {after : Bool} {op : Operator} {lexeme : String} {span : Span}
    {t : Token} {rest : List Token}
    (h : Fenced after (.leaf (.operator op) lexeme span :: t :: rest)) :
    t ≠ impliedTimes ∧ Fenced t.isOperand rest := by
  have tail : Fenced false (t :: rest) := by
    cases h with
    | cons _ tail => exact tail
    | implied _ tail => exact tail
  cases tail with
  | cons written tail => exact ⟨written, tail⟩

section

variable {group : GroupValue}
  (inside : ∀ family {ts words}, StandAll ts words → Fenced false ts → words <:+: tokens →
    Faults (Fault.Traced tokens) (group family ts))

include inside

theorem steps_traced (x : Float) {after : Bool} {ts words : List Token} (h : StandAll ts words)
    (fenced : Fenced after ts) (part : words <:+: tokens) :
    Faults (Fault.Traced tokens) (steps group x ts) := by
  fun_induction steps group x ts generalizing after words with
  | case1 x => exact .pure _
  | case2 x slot =>
    have written : slot ≠ impliedTimes := by
      cases fenced with
      | cons written _ => exact written
      | implied next _ => cases next
    cases h with
    | cons first none =>
      cases none
      rw [List.append_nil] at part
      obtain ⟨w, mem, after⟩ := (ends_of_standsFor scanned first written part).2
      exact .throw (.after mem trivial rfl after)
  | case3 x slot word span argument rest ih =>
    obtain _ | @⟨_, _, p, _, first, others⟩ := h
    obtain _ | @⟨_, _, q, _, called, others⟩ := others
    obtain _ | @⟨_, _, r, _, operand, others⟩ := others
    refine slot_traced scanned first (isInfix_left part) ?_
    rintro op lexeme place rfl
    obtain ⟨written, tail⟩ := fenced.after_slot
    have right := isInfix_right part
    obtain ⟨f, known, rfl⟩ := called.of_function
    have mem : .leaf .identifier word span ∈ tokens := right.subset List.mem_cons_self
    refine .bind (callValue_traced scanned inside known mem operand
      (isInfix_left (isInfix_right right))) fun y => ?_
    rw [← List.append_assoc] at part
    refine .bind (apply_traced scanned first called written (isInfix_left part) x y) fun z => ?_
    cases tail with
    | cons _ tail => exact ih z others tail (isInfix_right (isInfix_right right))
  | case4 x slot t rest other ih =>
    obtain _ | @⟨_, _, p, _, first, others⟩ := h
    obtain _ | @⟨_, _, q, _, operand, others⟩ := others
    refine slot_traced scanned first (isInfix_left part) ?_
    rintro op lexeme place rfl
    obtain ⟨written, tail⟩ := fenced.after_slot
    have right := isInfix_right part
    refine .bind (operandValue_traced scanned inside operand written (isInfix_left right))
      fun y => ?_
    rw [← List.append_assoc] at part
    refine .bind (apply_traced scanned first operand written (isInfix_left part) x y) fun z => ?_
    exact ih z others tail (isInfix_right right)

theorem sumValue_traced {ts words : List Token} (h : StandAll ts words)
    (fenced : Fenced false ts) (part : words <:+: tokens) :
    Faults (Fault.Traced tokens) (sumValue group ts) := by
  unfold sumValue
  split
  · exact .throw (.inl rfl)
  · rename_i word span argument rest
    obtain _ | @⟨_, _, p, _, called, others⟩ := h
    obtain _ | @⟨_, _, q, _, operand, others⟩ := others
    obtain ⟨f, known, rfl⟩ := called.of_function
    have mem : .leaf .identifier word span ∈ tokens := part.subset List.mem_cons_self
    have right := isInfix_right part
    have tail := fenced.tail (by simp [impliedTimes])
    refine .bind (callValue_traced scanned inside known mem operand (isInfix_left right))
      fun x => ?_
    cases tail with
    | cons _ tail => exact steps_traced scanned inside x others tail (isInfix_right right)
  · rename_i t rest _
    split
    · exact steps_traced scanned inside 0.0 h fenced part
    · obtain _ | @⟨_, _, p, _, operand, others⟩ := h
      obtain ⟨written, tail⟩ : t ≠ impliedTimes ∧ Fenced t.isOperand rest := by
        cases fenced with
        | cons written tail => exact ⟨written, tail⟩
      exact .bind (operandValue_traced scanned inside operand written (isInfix_left part))
        fun x => steps_traced scanned inside x others tail (isInfix_right part)

omit inside in
theorem factorialValue_traced {lexeme : String} {span : Span}
    (mem : .leaf .factorial lexeme span ∈ tokens) (x : Float) :
    Faults (Fault.Traced tokens)
      (factorialValue x (Token.leaf .factorial lexeme span).position?) := by
  obtain ⟨c, symbol, text⟩ := lexeme_of_symbol scanned mem rfl (by simp) (by simp) (by simp)
  obtain rfl := symbol?_factorial symbol
  have here := position?_of_mem scanned mem (Eq.refl (Token.leaf .factorial lexeme span).span)
  have concerns : (Token.leaf .factorial lexeme span).shape = .leaf .factorial ∧
      (Token.leaf .factorial lexeme span).lexeme = "!" := ⟨rfl, text⟩
  unfold factorialValue Calculator.factorial
  split
  · exact .pure _
  · rename_i cause h
    split at h
    · cases h
      exact .throw (.start mem concerns rfl here)
    · split at h
      · cases h
        exact .throw (.start mem concerns rfl here)
      · split at h
        · cases h
        · cases h
          exact .throw (.start mem concerns rfl here)

theorem bodyValue_traced {ts words : List Token} (h : StandAll ts words)
    (fenced : Fenced false ts) (part : words <:+: tokens) :
    Faults (Fault.Traced tokens) (bodyValue group ts) := by
  unfold bodyValue
  split
  · rename_i name span lexeme place t rest
    obtain _ | @⟨_, _, p, _, target, others⟩ := h
    obtain _ | @⟨_, _, q, _, mark, others⟩ := others
    have tail := (fenced.tail (by simp [impliedTimes])).tail (by simp [impliedTimes])
    refine .bind (inside .round others tail (isInfix_right (isInfix_right part))) fun x => ?_
    exact .bind (.assign name x) fun _ => .pure x
  · rename_i t lexeme span
    obtain _ | @⟨_, _, p, _, operand, others⟩ := h
    obtain _ | @⟨_, _, q, _, mark, none⟩ := others
    cases none
    cases mark with
    | word plain word =>
      have mem := (isInfix_right part).subset List.mem_cons_self
      have written : t ≠ impliedTimes := by
        cases fenced with
        | cons written _ => exact written
      exact .bind (operandValue_traced scanned inside operand written (isInfix_left part))
        fun x => factorialValue_traced scanned mem x
  · exact sumValue_traced scanned inside h fenced part

end

theorem evaluateWithin_traced (limit : Nat) (family : Bracket) {ts words : List Token}
    (h : StandAll ts words) (fenced : Fenced false ts) (part : words <:+: tokens) :
    Faults (Fault.Traced tokens) (evaluateWithin limit family ts) := by
  induction limit generalizing family ts words with
  | zero => exact .throw (.inl rfl)
  | succ limit ih =>
    have inside : ∀ family {ts words}, StandAll ts words → Fenced false ts → words <:+: tokens →
        Faults (Fault.Traced tokens) (evaluateWithin limit family ts) :=
      fun family _ _ h fenced part => ih family h fenced part
    exact .bind (bodyValue_traced scanned inside h fenced part) fun x => .pure _

end

/-! ## Brackets -/

/-- The check of the brackets fails at one of them. -/
theorem bracketFault_traced {tokens : List Token} {waiting : List Opening} {rest : List Token}
    (opened : ∀ o ∈ waiting, .leaf (.opening o.bracket) o.lexeme o.span ∈ tokens)
    (part : ∀ t ∈ rest, t ∈ tokens) {fault : Fault}
    (h : bracketFault waiting rest = some fault) : fault.Traced tokens := by
  fun_induction bracketFault waiting rest with
  | case1 => cases h
  | case2 inner outer =>
    cases h
    exact .start (opened inner List.mem_cons_self) ⟨rfl, rfl⟩ rfl rfl
  | case3 waiting rest family lexeme span ih =>
    obtain ⟨first, part⟩ := List.forall_mem_cons.1 part
    exact ih (List.forall_mem_cons.2 ⟨first, opened⟩) part h
  | case4 rest family lexeme span =>
    cases h
    exact .start (part _ List.mem_cons_self) ⟨rfl, rfl⟩ rfl rfl
  | case5 rest lexeme span inner outer ih =>
    exact ih (List.forall_mem_cons.1 opened).2 (List.forall_mem_cons.1 part).2 h
  | case6 rest family lexeme span inner outer other =>
    cases h
    exact .start (part _ List.mem_cons_self) ⟨rfl, rfl⟩ rfl rfl
  | case7 waiting t rest _ _ ih => exact ih opened (List.forall_mem_cons.1 part).2 h

/-! ## Calculations -/

theorem parseWithin_traced {limit : Nat} {code : String} {tokens : List Token}
    (scanned : scan code = .ok tokens) {fault : Fault}
    (h : parseWithin limit code = .error fault) : fault.Traced tokens := by
  have nonempty : code ≠ "" := by
    rintro rfl
    cases scanned
  obtain ⟨_, scanned', _, ⟨fault', checked, refused⟩ | ⟨f, _, _, read⟩⟩ := parse_cases nonempty
  · cases scanned.symm.trans scanned'
    cases h.symm.trans (refused limit)
    split
    · exact .inl rfl
    · exact bracketFault_traced (by simp) (fun _ ht => ht) checked
  · rw [read] at h
    exact .inl (by rw [tooDeep_of_atDepth h]; rfl)

theorem calculateWithin_traced {limits : Limits} {code : String} {tokens : List Token}
    (scanned : scan code = .ok tokens) {env : Environment} {fault : Fault}
    (h : (calculateWithin limits code env).result = .error fault) : fault.Traced tokens := by
  unfold calculateWithin at h
  split at h
  · rename_i tree parsed
    obtain ⟨tokens', scanned', stands, fenced⟩ := standAll_of_parseWithin parsed
    rw [scanned] at scanned'
    cases scanned'
    exact evaluateWithin_traced scanned limits.evaluating .round stands fenced
      (List.infix_refl _) ⟨env, []⟩ fault h
  · rename_i refused parsed
    cases h
    exact parseWithin_traced scanned parsed

/-- Whatever the limits on the depth are, a fault that is not one of the text as a whole
has a place in the text, and the message shows it. There, or right before it if something
is missing, stands a word that the cause concerns. -/
theorem calculate_blames {limits : Limits} {code : String} {env : Environment} {fault : Fault}
    (h : (calculateWithin limits code env).result = .error fault)
    (particular : fault.cause.category.isGeneral = false) :
    ∃ tokens p, scan code = .ok tokens ∧ fault.position = some p ∧
      (∃ caret, fault.describe code = (fault.diagnostic code).header ++ "\n" ++
        String.ofList (Diagnostic.window code.toList p.toNat).1 ++ "\n" ++ caret) ∧
      ∃ t ∈ tokens, fault.cause.Concerns tokens t ∧
        if fault.cause.category = .incomplete then
          p - 1 = t.span.stop ∧ 1 ≤ p ∧ p ≤ code.length
        else p = t.span.start ∧ 0 ≤ p ∧ p < code.length := by
  have nonempty : code ≠ "" := by
    rintro rfl
    cases h
    cases particular
  have scanned := scan_eq_of_ne nonempty
  rcases calculateWithin_traced scanned h with general | ⟨t, mem, concerns, here⟩
  · rw [particular] at general
    cases general
  · obtain ⟨start, inside, stop⟩ := (inOrder_of_scan scanned).within t mem
    have place : if fault.cause.category = .incomplete then
        fault.cause.place t - 1 = t.span.stop ∧ 1 ≤ fault.cause.place t ∧
          fault.cause.place t ≤ code.length
        else fault.cause.place t = t.span.start ∧ 0 ≤ fault.cause.place t ∧
          fault.cause.place t < code.length := by
      unfold Cause.place
      split
      · omega
      · omega
    have near : 0 ≤ fault.cause.place t ∧ (fault.cause.place t).toNat ≤ code.length := by
      split at place <;> omega
    have shown : (fault.diagnostic code).position = some ((fault.cause.place t).toNat : Int) := by
      rw [Int.toNat_of_nonneg near.1]
      exact here
    exact ⟨_, _, scanned, here, ⟨_, Diagnostic.render_of_position shown nonempty near.2⟩, t, mem,
      concerns, place⟩

theorem calculate_blames_divisor :
    ∃ tokens t, scan "2 + 6 / (1 - 1)" = .ok tokens ∧ t ∈ tokens ∧
      Cause.divisionByZero.Concerns tokens t ∧ t.span.start = 8 := by
  have h : (calculate "2 + 6 / (1 - 1)" .empty).result = .error ⟨.divisionByZero, some 8⟩ := by
    decide +kernel
  obtain ⟨tokens, p, scanned, here, _, t, mem, concerns, place⟩ := calculate_blames h rfl
  cases here
  exact ⟨tokens, t, scanned, mem, concerns, place.1.symm⟩

end Calculator
