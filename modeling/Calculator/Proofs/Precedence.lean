import Calculator.Proofs.Arrangement
import Calculator.Proofs.Limits

/-!
# Precedence

Reading the words of a derivation and evaluating the tree gives the value of the
derivation, for every derivation and every environment.

* `Folded`: operands with operators between them, which are evaluated piece by
  piece (`sumValue_append`).
* `isSum`: contents of a group that operators are applied in.
* `spread_computes`: the value of what a derivation is grouped into.
* `spread_reaches`: how deep that is.
* `calculateTokensWithin_eq_value`: the outcome of the words of a derivation.
-/

namespace Calculator

open Evaluation Phrase

/-! ## Operators applied in turn -/

/-- Operands with operators between them, with or without a sign in front. -/
inductive Folded : List Token → Prop where
  | operand {t : Token} (operand : t.isOperand = true) : Folded [t]
  | signed {op : Operator} {t : Token} (known : op.isSign = true) (mark : Word)
      (operand : t.isOperand = true) : Folded [mark.token (.operator op), t]
  | step {ts : List Token} {t : Token} (folded : Folded ts) (op : Operator) (mark : Word)
      (operand : t.isOperand = true) : Folded (ts ++ [mark.token (.operator op), t])

section

variable (group : GroupValue)

theorem steps_cons {t : Token} (operand : t.isOperand = true) (op : Operator) (mark : Word)
    (x : Float) (rest : List Token) :
    steps group x (mark.token (.operator op) :: t :: rest) =
      operandValue group t >>= fun y => op.apply x y t.position? >>= fun z =>
        steps group z rest := by
  cases t with
  | leaf kind lexeme span =>
    cases kind with
    | number => rfl
    | identifier => rfl
    | _ => cases operand
  | pointer level lexeme span => cases operand
  | group family tokens span => rfl

theorem sumValue_operand {t : Token} (operand : t.isOperand = true) (rest : List Token) :
    sumValue group (t :: rest) = operandValue group t >>= fun x => steps group x rest := by
  cases t with
  | leaf kind lexeme span =>
    cases kind with
    | number => rfl
    | identifier => rfl
    | _ => cases operand
  | pointer level lexeme span => cases operand
  | group family tokens span => rfl

theorem sumValue_signed {op : Operator} (known : op.isSign = true) (mark : Word)
    (rest : List Token) :
    sumValue group (mark.token (.operator op) :: rest) =
      steps group 0.0 (mark.token (.operator op) :: rest) := by
  cases op with
  | plus => rfl
  | minus => rfl
  | _ => cases known

/-- What comes after a folded list is applied to its value. -/
theorem sumValue_append {ts : List Token} (folded : Folded ts) (us : List Token) :
    sumValue group (ts ++ us) = sumValue group ts >>= fun x => steps group x us := by
  induction folded generalizing us with
  | operand operand =>
    rw [List.singleton_append, sumValue_operand group operand, sumValue_operand group operand]
    simp [steps]
  | signed known mark operand =>
    rw [List.cons_append, List.singleton_append, sumValue_signed group known,
      sumValue_signed group known, steps_cons group operand, steps_cons group operand]
    simp [steps]
  | step folded op mark operand ih =>
    rw [List.append_assoc, ih, ih, bind_assoc]
    refine bind_congr fun x => ?_
    rw [List.cons_append, List.singleton_append, steps_cons group operand,
      steps_cons group operand]
    simp [steps]

theorem sumValue_step {ts : List Token} {t : Token} (folded : Folded ts) (op : Operator)
    (mark : Word) (operand : t.isOperand = true) :
    sumValue group (ts ++ [mark.token (.operator op), t]) =
      sumValue group ts >>= fun x => operandValue group t >>= fun y =>
        op.apply x y t.position? := by
  rw [sumValue_append group folded]
  refine bind_congr fun x => ?_
  rw [steps_cons group operand]
  simp [steps]

end

/-! ## Sums -/

/-- Operators are applied in the contents of a group, unless they are an assignment or
the factorial of one token. -/
def isSum : List Token → Bool
  | .leaf .identifier _ _ :: .leaf .assign _ _ :: _ :: _ => false
  | [_, .leaf .factorial _ _] => false
  | _ => true

theorem bodyValue_of_isSum (group : GroupValue) {ts : List Token} (h : isSum ts = true) :
    bodyValue group ts = sumValue group ts := by
  fun_cases bodyValue group ts with
  | case1 name span lexeme place t rest => cases h
  | case2 t lexeme span => simp [isSum] at h
  | case3 => rfl

/-- What a sum is made of: neither a factorial mark nor an assignment mark. -/
def Token.isSummand : Token → Bool
  | leaf .factorial _ _ | leaf .assign _ _ => false
  | _ => true

theorem Token.isSummand_of_isOperand {t : Token} (h : t.isOperand = true) : t.isSummand = true := by
  fun_cases Token.isSummand t with
  | case1 => cases h
  | case2 => cases h
  | case3 => rfl

theorem Token.summands_of_isOperand {t : Token} (h : t.isOperand = true) :
    ∀ u ∈ [t], u.isSummand = true :=
  List.forall_mem_singleton.2 (isSummand_of_isOperand h)

theorem isSum_cons_cons (t : Token) {u : Token} (h : u.isSummand = true) (rest : List Token) :
    isSum (t :: u :: rest) = true := by
  generalize same : t :: u :: rest = ts
  fun_cases isSum ts with
  | case1 =>
    cases same
    cases h
  | case2 =>
    cases same
    cases h
  | case3 => rfl

theorem isSum_of_summands {ts : List Token} (h : ∀ t ∈ ts, t.isSummand = true) :
    isSum ts = true := by
  rcases ts with _ | ⟨t, _ | ⟨u, rest⟩⟩
  · rfl
  · simp [isSum]
  · exact isSum_cons_cons t (h u (by simp)) rest

theorem Folded.summands {ts : List Token} (folded : Folded ts) : ∀ t ∈ ts, t.isSummand = true := by
  induction folded with
  | operand operand => exact Token.summands_of_isOperand operand
  | signed known mark operand =>
    exact List.forall_mem_cons.2 ⟨rfl, Token.summands_of_isOperand operand⟩
  | step folded op mark operand ih =>
    exact List.forall_mem_append.2
      ⟨ih, List.forall_mem_cons.2 ⟨rfl, Token.summands_of_isOperand operand⟩⟩

theorem Folded.of_singleton {t : Token} (folded : Folded [t]) : t.isOperand = true := by
  generalize h : [t] = ts at folded
  cases folded with
  | operand operand =>
    injection h with h
    rwa [h]
  | signed known mark operand => cases h
  | step folded op mark operand =>
    have := congrArg List.length h
    simp at this

theorem bodyValue_of_folded (group : GroupValue) {ts : List Token} (folded : Folded ts) :
    bodyValue group ts = sumValue group ts :=
  bodyValue_of_isSum group (isSum_of_summands folded.summands)

theorem product_folded {last : Bool} : ∀ p : Phrase (.product last), Folded p.spread
  | .power p => .operand (lump_isOperand (power_spread_linked p))
  | .times left op _ mark right =>
    .step (product_folded left) op mark (lump_isOperand (power_spread_linked right))
  | .beside left right =>
    .step (product_folded left) .times ⟨"*", .unknown⟩ (lump_isOperand (power_spread_linked right))

theorem lump_product_isOperand {last : Bool} (p : Phrase (.product last)) :
    (lump p.spread).isOperand = true := lump_isOperand (product_spread_linked p)

theorem sum_folded {last : Bool} : ∀ s : Phrase (.sum last), Folded s.spread
  | .product p => .operand (lump_product_isOperand p)
  | .signed op known mark p => .signed known mark (lump_product_isOperand p)
  | .plus left op _ mark right => .step (sum_folded left) op mark (lump_product_isOperand right)

/-! ## Places -/

theorem quantity_spread (q : Phrase .quantity) : q.spread = q.slots := by
  cases q with
  | number w => rfl
  | bracket family opening closing inside => rfl

theorem operand_spread {bare : Bool} (p : Phrase (.operand bare)) : p.spread = p.slots := by
  cases p with
  | quantity q => rfl
  | name w => rfl
  | call word f known argument => rfl
  | factorial operand mark => rfl

theorem quantity_span (q : Phrase .quantity) : (lump q.slots).span = q.place := by
  cases q with
  | number w => rfl
  | bracket family opening closing inside => rfl

theorem operand_span {bare : Bool} :
    ∀ p : Phrase (.operand bare), (lump p.slots).span = p.place
  | .quantity q => quantity_span q
  | .name w => rfl
  | .call word f known argument => by
    obtain ⟨t, h, _⟩ := quantity_slots argument
    have e := quantity_span argument
    rw [h] at e
    rw [slots, h, place, ← e]
    rfl
  | .factorial operand mark => by
    obtain ⟨t, h, _⟩ := operand_slots operand
    have e := operand_span operand
    rw [h] at e
    rw [slots, h, place, ← e]
    rfl

/-- The token of a power stands where the power stands in the text. -/
theorem power_span {first last : Bool} :
    ∀ p : Phrase (.power first last), (lump p.spread).span = p.place
  | .item operand => operand_span operand
  | .raised base mark exponent => by
    obtain ⟨t, h, _⟩ := operand_slots base
    have e := operand_span base
    rw [h] at e
    rw [spread, h, place, ← e, ← power_span exponent]
    rfl

theorem Folded.ne_nil {ts : List Token} (folded : Folded ts) : ts ≠ [] := by
  cases folded with
  | operand _ => exact List.cons_ne_nil _ _
  | signed _ _ _ => exact List.cons_ne_nil _ _
  | step _ _ _ _ => simp

theorem level_spread_ne_nil (d : Phrase .level) : d.spread ≠ [] := by
  cases d with
  | sum s => exact (sum_folded s).ne_nil
  | assigned target mark value => exact List.cons_ne_nil _ _

/-! ## Values -/

/-- The tokens of a phrase of a rank compute a value, as far as the depth goes.
Up to the powers they stand for one operand. -/
def Rank.Computes : Rank → List Token → Evaluation Float → Prop
  | .quantity, ts, e | .operand _, ts, e | .power _ _, ts, e =>
      ∀ n, Approximates (operandValue (evaluateWithin n) (lump ts)) e
  | .product _, ts, e | .sum _, ts, e | .level, ts, e =>
      ∀ n, Approximates (bodyValue (evaluateWithin n) ts) e

theorem group_computes {ts : List Token} {e : Evaluation Float} (family : Bracket)
    (h : Rank.level.Computes ts e) :
    ∀ n, Approximates (evaluateWithin n family ts) (e >>= fun x => return family.apply x)
  | 0 => .of_tooDeep _
  | n + 1 => (h n).bind fun _ => .refl _

theorem round_computes {ts : List Token} {e : Evaluation Float}
    (h : Rank.level.Computes ts e) (n : Nat) : Approximates (evaluateWithin n .round ts) e := by
  have := group_computes .round h n
  rwa [show (e >>= fun x => return Bracket.round.apply x) = e from bind_pure e] at this

theorem grouping_computes {ts : List Token} {e : Evaluation Float}
    (h : Rank.level.Computes ts e) (n : Nat) :
    Approximates (operandValue (evaluateWithin n) (.grouping ts)) e := round_computes h n

/-- Wrapping a folded list as a whole does not change its value. -/
theorem lump_computes {ts : List Token} {e : Evaluation Float} (folded : Folded ts)
    (h : Rank.level.Computes ts e) (n : Nat) :
    Approximates (operandValue (evaluateWithin n) (lump ts)) e := by
  rcases ts with _ | ⟨t, _ | ⟨u, ts⟩⟩
  · exact grouping_computes h n
  · have single := h n
    rw [bodyValue_of_folded _ folded, sumValue_operand _ folded.of_singleton] at single
    change Approximates (operandValue (evaluateWithin n) t >>= pure) e at single
    rwa [bind_pure] at single
  · exact grouping_computes h n

/-- What a settled list computes, the list computes that is only arranged. -/
theorem arrange_computes {ts : List Token} {e : Evaluation Float}
    (h : Rank.level.Computes (settle ts) e) : Rank.level.Computes (arrange ts) e := by
  rcases settle_eq ts with same | grouped
  · rwa [same] at h
  · rw [grouped] at h
    intro n
    have inner : Approximates (bodyValue (evaluateWithin (n + 1)) [.grouping (arrange ts)]) e :=
      h (n + 1)
    have single : Folded [Token.grouping (arrange ts)] := .operand rfl
    rw [bodyValue_of_folded _ single, sumValue_operand _ rfl] at inner
    change Approximates (bodyValue (evaluateWithin n) (arrange ts) >>= pure >>= pure) e at inner
    rwa [bind_pure, bind_pure] at inner

theorem apply_of_ne_divide {op : Operator} (other : op ≠ .divide) (x y : Float)
    (position : Option Int) : op.apply x y position = pure (op.result x y) := by
  unfold Operator.apply
  rw [if_neg (fun h => other h.1)]

theorem ne_divide_of_sign {op : Operator} (known : op.isSign = true) : op ≠ .divide := by
  rintro rfl
  cases known

/-- An operator between two computed operands. -/
theorem step_computes {ts us : List Token} {e e' : Evaluation Float} {op : Operator}
    {place : Option Int} (folded : Folded ts) (h : Rank.level.Computes ts e)
    (operand : (lump us).isOperand = true)
    (h' : ∀ n, Approximates (operandValue (evaluateWithin n) (lump us)) e') (mark : Word)
    (here : (lump us).position? = place) :
    Rank.level.Computes (ts ++ [mark.token (.operator op), lump us])
      (e >>= fun x => e' >>= fun y => op.apply x y place) := by
  intro n
  have left := h n
  rw [bodyValue_of_folded _ folded] at left
  rw [bodyValue_of_folded _ (.step folded op mark operand), sumValue_step _ folded op mark operand,
    here]
  exact left.bind fun x => (h' n).bind fun y => .refl _

theorem operand_computes {t : Token} {e : Evaluation Float} (operand : t.isOperand = true)
    (h : ∀ n, Approximates (operandValue (evaluateWithin n) t) e) :
    Rank.level.Computes [t] e := by
  intro n
  rw [bodyValue_of_folded _ (.operand operand), sumValue_operand _ operand]
  show Approximates (operandValue (evaluateWithin n) t >>= pure) e
  rw [bind_pure]
  exact h n

theorem bodyValue_call (group : GroupValue) (word : Word) {t : Token}
    (quantity : t.isQuantity = true) :
    bodyValue group [word.token .function, t] = callValue group word.lexeme word.span t := by
  have same : bodyValue group [word.token .function, t] =
      sumValue group [word.token .function, t] := by
    cases t with
    | leaf kind lexeme span =>
      cases kind with
      | number => rfl
      | _ => cases quantity
    | pointer level lexeme span => cases quantity
    | group family tokens span => rfl
  rw [same]
  show callValue group word.lexeme word.span t >>= pure = _
  rw [bind_pure]

theorem bodyValue_factorial (group : GroupValue) (t : Token) (mark : Word) :
    bodyValue group [t, mark.token .factorial] =
      operandValue group t >>= fun x => factorialValue x mark.span.position? := by
  cases t with
  | leaf kind lexeme span => cases kind <;> rfl
  | pointer level lexeme span => rfl
  | group family tokens span => rfl

/-- What a derivation is grouped into computes its value. -/
theorem spread_computes {r : Rank} (d : Phrase r) : r.Computes d.spread d.value := by
  -- Each production adds one step to a folded list or puts one into a group.
  induction d with
  | number w => exact fun n => .refl _
  | bracket family opening closing inside ih =>
    refine group_computes family (arrange_computes ?_)
    rwa [settle_slots]
  | quantity q ih =>
    rw [quantity_spread] at ih
    exact ih
  | name w => exact fun n => .refl _
  | call word f known argument ih =>
    obtain ⟨t, h, quantity⟩ := quantity_slots argument
    rw [quantity_spread, h] at ih
    rw [spread, slots, h]
    refine grouping_computes (e := (call word f known argument).value) fun n => ?_
    rw [bodyValue_call _ word quantity, callValue,
      if_pos (t.isOperand_of_isQuantity quantity), known]
    exact (ih n).bind fun x => .refl _
  | factorial operand mark ih =>
    obtain ⟨t, h, _⟩ := operand_slots operand
    rw [operand_spread, h] at ih
    rw [spread, slots, h]
    refine grouping_computes (e := (Phrase.factorial operand mark).value) fun n => ?_
    rw [List.singleton_append, bodyValue_factorial]
    exact (ih n).bind fun x => .refl _
  | item operand ih =>
    rw [operand_spread] at ih
    exact ih
  | raised base mark exponent ih ih' =>
    obtain ⟨t, h, isOperand, _⟩ := operand_slots base
    rw [operand_spread, h] at ih
    rw [spread, h]
    exact grouping_computes (step_computes (.operand isOperand) (operand_computes isOperand ih)
      (lump_isOperand (power_spread_linked exponent)) ih' mark rfl)
  | power p ih => exact operand_computes (lump_isOperand (power_spread_linked p)) ih
  | times left op known mark right ih ih' =>
    exact step_computes (product_folded left) ih (lump_isOperand (power_spread_linked right)) ih'
      mark (congrArg Span.position? (power_span right))
  | beside left right ih ih' =>
    exact step_computes (product_folded left) ih (lump_isOperand (power_spread_linked right)) ih'
      ⟨"*", .unknown⟩ rfl
  | product p ih =>
    exact operand_computes (lump_product_isOperand p) (lump_computes (product_folded p) ih)
  | signed op known mark p ih =>
    intro n
    have folded : Folded [mark.token (.operator op), lump p.spread] :=
      .signed known mark (lump_product_isOperand p)
    have operand := lump_computes (product_folded p) ih n
    rw [spread, bodyValue_of_folded _ folded, sumValue_signed _ known,
      steps_cons _ (lump_product_isOperand p)]
    refine operand.bind fun y => ?_
    rw [apply_of_ne_divide (ne_divide_of_sign known)]
    exact .refl _
  | plus left op known mark right ih ih' =>
    have step : Rank.level.Computes (left.spread ++ [mark.token (.operator op), lump right.spread])
        (left.value >>= fun x => right.value >>= fun y => op.apply x y _) :=
      step_computes (sum_folded left) ih (lump_product_isOperand right)
        (lump_computes (product_folded right) ih') mark rfl
    simp only [apply_of_ne_divide (ne_divide_of_sign known)] at step
    exact step
  | sum s ih => exact ih
  | assigned target mark value ih =>
    intro n
    obtain ⟨t, rest, h⟩ := List.exists_cons_of_ne_nil (level_spread_ne_nil value)
    have inner := round_computes ih n
    rw [h] at inner
    rw [spread, h]
    exact inner.bind fun x => .refl _

/-! ## Depth -/

/-- How deep the tokens of a phrase of a rank reach. -/
def Rank.Reaches : Rank → List Token → Nat → Prop
  | .quantity, ts, n | .operand _, ts, n | .power _ _, ts, n => (lump ts).reach ≤ n
  | .product _, ts, n => reachAll ts < n
  | .sum _, ts, n | .level, ts, n => reachAll ts ≤ n

theorem lump_reach_le (ts : List Token) : (lump ts).reach ≤ reachAll ts + 1 := by
  rcases ts with _ | ⟨t, _ | ⟨u, ts⟩⟩
  · exact Nat.le_refl _
  · have := reach_le_reachAll t []
    show t.reach ≤ _
    omega
  · exact Nat.le_refl _

theorem reachAll_operand {t : Token} (operand : t.isOperand = true) (rest : List Token) :
    reachAll (t :: rest) = max t.reach (reachAll rest) := by
  cases t with
  | leaf kind lexeme span =>
    cases kind with
    | number => rfl
    | identifier => rfl
    | _ => cases operand
  | pointer level lexeme span => cases operand
  | group family tokens span => rfl

theorem reachAll_singleton {t : Token} (operand : t.isOperand = true) : reachAll [t] = t.reach := by
  rw [reachAll_operand operand, reachAll]
  exact Nat.max_zero _

theorem reachAll_call (word : Word) {t : Token} (operand : t.isOperand = true) :
    reachAll [word.token .function, t] = t.reach := by
  simp [Word.token, reachAll, Token.reach, reachAll_singleton operand]

theorem reachAll_factorial (mark : Word) {t : Token} (operand : t.isOperand = true) :
    reachAll [t, mark.token .factorial] = t.reach := by
  simp [Word.token, reachAll, Token.reach, reachAll_operand operand]

theorem reachAll_signed (op : Operator) (mark : Word) {t : Token} (operand : t.isOperand = true) :
    reachAll [mark.token (.operator op), t] = t.reach := by
  simp [Word.token, reachAll, Token.reach, reachAll_singleton operand]

theorem reachAll_assigned (target mark : Word) (ts : List Token) :
    reachAll (target.token .identifier :: mark.token .assign :: ts) = reachAll ts + 1 := by
  simp [Word.token, reachAll, Token.reach]

theorem reachAll_step {ts : List Token} {t : Token} (folded : Folded ts) (op : Operator)
    (mark : Word) (operand : t.isOperand = true) :
    reachAll (ts ++ [mark.token (.operator op), t]) = max (reachAll ts) t.reach := by
  have append : ∀ us : List Token, reachAll (ts ++ us) = max (reachAll ts) (reachAll us) := by
    induction folded with
    | operand operand =>
      intro us
      rw [List.singleton_append, reachAll_operand operand, reachAll_operand operand, reachAll]
      omega
    | signed known mark operand =>
      intro us
      simp only [List.cons_append, List.nil_append, Word.token, reachAll, Token.reach,
        reachAll_operand operand]
      omega
    | step folded op mark operand ih =>
      intro us
      rw [List.append_assoc, ih, ih]
      simp only [List.cons_append, List.nil_append, Word.token, reachAll, Token.reach,
        reachAll_operand operand]
      omega
  rw [append]
  simp only [Word.token, reachAll, Token.reach, reachAll_operand operand]
  omega

theorem arrange_reaches {ts : List Token} {n : Nat} (h : reachAll (settle ts) ≤ n) :
    reachAll (arrange ts) ≤ n := by
  rcases settle_eq ts with same | grouped
  · rwa [same] at h
  · rw [grouped] at h
    change max (reachAll (arrange ts) + 1) 0 ≤ n at h
    omega

theorem spread_reaches {r : Rank} (d : Phrase r) : r.Reaches d.spread d.height := by
  induction d with
  | number w => exact Nat.le_refl _
  | bracket family opening closing inside ih =>
    have inner : reachAll (settle inside.slots) ≤ inside.height := by rwa [settle_slots]
    exact Nat.succ_le_succ (arrange_reaches inner)
  | quantity q ih =>
    rw [quantity_spread] at ih
    exact ih
  | name w => exact Nat.le_refl _
  | call word f known argument ih =>
    obtain ⟨t, h, quantity⟩ := quantity_slots argument
    rw [quantity_spread, h] at ih
    have inner : t.reach ≤ argument.height := ih
    show reachAll (word.token .function :: argument.slots) + 1 ≤ argument.height + 1
    rw [h, reachAll_call word (t.isOperand_of_isQuantity quantity)]
    omega
  | factorial operand mark ih =>
    obtain ⟨t, h, isOperand, _⟩ := operand_slots operand
    rw [operand_spread, h] at ih
    have inner : t.reach ≤ operand.height := ih
    show reachAll (operand.slots ++ [mark.token .factorial]) + 1 ≤ operand.height + 1
    rw [h, List.singleton_append, reachAll_factorial mark isOperand]
    omega
  | item operand ih =>
    rw [operand_spread] at ih
    exact ih
  | raised base mark exponent ih ih' =>
    obtain ⟨t, h, isOperand, _⟩ := operand_slots base
    rw [operand_spread, h] at ih
    have left : t.reach ≤ base.height := ih
    have right : (lump exponent.spread).reach ≤ exponent.height := ih'
    have same : lump (raised base mark exponent).spread =
        .grouping ([t] ++ [mark.token (.operator .power), lump exponent.spread]) := by
      rw [spread, h]
      rfl
    show (lump (raised base mark exponent).spread).reach ≤ _
    rw [same, height]
    show reachAll ([t] ++ [mark.token (.operator .power), lump exponent.spread]) + 1 ≤ _
    rw [reachAll_step (.operand isOperand) _ _ (lump_isOperand (power_spread_linked exponent)),
      reachAll_singleton isOperand]
    omega
  | power p ih =>
    have inner : (lump p.spread).reach ≤ p.height := ih
    show reachAll [lump p.spread] < p.height + 1
    rw [reachAll_singleton (lump_isOperand (power_spread_linked p))]
    omega
  | times left op known mark right ih ih' =>
    have before : reachAll left.spread < left.height := ih
    have after : (lump right.spread).reach ≤ right.height := ih'
    show reachAll (left.spread ++ [mark.token (.operator op), lump right.spread]) < _
    rw [reachAll_step (product_folded left) _ _ (lump_isOperand (power_spread_linked right)),
      height]
    omega
  | beside left right ih ih' =>
    have before : reachAll left.spread < left.height := ih
    have after : (lump right.spread).reach ≤ right.height := ih'
    have implied : impliedTimes = Word.token ⟨"*", .unknown⟩ (.operator .times) := rfl
    show reachAll (left.spread ++ [impliedTimes, lump right.spread]) < _
    rw [implied,
      reachAll_step (product_folded left) _ _ (lump_isOperand (power_spread_linked right)),
      height]
    omega
  | product p ih =>
    have inner : reachAll p.spread < p.height := ih
    have outer := lump_reach_le p.spread
    show reachAll [lump p.spread] ≤ p.height
    rw [reachAll_singleton (lump_product_isOperand p)]
    omega
  | signed op known mark p ih =>
    have inner : reachAll p.spread < p.height := ih
    have outer := lump_reach_le p.spread
    show reachAll [mark.token (.operator op), lump p.spread] ≤ p.height
    rw [reachAll_signed op mark (lump_product_isOperand p)]
    omega
  | plus left op known mark right ih ih' =>
    have before : reachAll left.spread ≤ left.height := ih
    have inner : reachAll right.spread < right.height := ih'
    have outer := lump_reach_le right.spread
    show reachAll (left.spread ++ [mark.token (.operator op), lump right.spread]) ≤ _
    rw [reachAll_step (sum_folded left) _ _ (lump_product_isOperand right), height]
    omega
  | sum s ih => exact ih
  | assigned target mark value ih =>
    have inner : reachAll value.spread ≤ value.height := ih
    show reachAll (target.token .identifier :: mark.token .assign :: value.spread) ≤ _
    rw [reachAll_assigned, height]
    omega

/-! ## Outcomes -/

/-- The outcome of a list of words, with bounds on the depth of reading and of
evaluating. -/
def calculateTokensWithin (reading depth : Nat) (tokens : List Token) (env : Environment) :
    Outcome :=
  match resolve reading tokens >>= combineWithin reading with
  | .ok tree => (evaluateWithin depth .round tree).outcome env
  | .error fault => ⟨.error fault, ⟨env, []⟩⟩

theorem calculateWithin_eq {code : String} {tokens : List Token} (h : scan code = .ok tokens)
    (limits : Limits) (env : Environment) :
    calculateWithin limits code env =
      calculateTokensWithin limits.reading limits.evaluating tokens env := by
  unfold calculateWithin parseWithin calculateTokensWithin
  rw [h]
  rfl

theorem Evaluation.Approximates.outcome {e e' : Evaluation Float} (h : Approximates e e')
    (env : Environment) :
    (e.outcome env).result = .error .tooDeep ∨ e.outcome env = e'.outcome env := by
  rcases h ⟨env, []⟩ with deep | same
  · exact .inl deep
  · refine .inr ?_
    rw [outcome_eq, outcome_eq, same]

/-- What the words of a derivation are read as. -/
theorem reading_yields (d : Phrase .level) (reading : Nat) :
    Yields (resolve reading d.tokens >>= combineWithin reading) (arrange d.slots) := by
  obtain ⟨f, ht, hr, _⟩ := forested_phrase d
  rw [← ht]
  refine (resolve_forest reading f).bind ?_
  rw [hr, ← separate_items, ← combine_eq]
  exact combineWithin_yields _ _

theorem reading_of_height {d : Phrase .level} {reading : Nat} (h : d.height < reading) :
    resolve reading d.tokens >>= combineWithin reading = .ok (arrange d.slots) := by
  obtain ⟨f, ht, hr, fits⟩ := forested_phrase d
  rw [← ht, resolve_of_fits (fits _ h), hr]
  show combineWithin reading d.items = _
  rw [combineWithin, if_pos (powersWithin_mono (powersWithin_items d) (by omega)), combine_eq,
    separate_items]

theorem arranged_computes (d : Phrase .level) (depth : Nat) :
    Approximates (evaluateWithin depth .round (arrange d.slots)) d.value := by
  refine round_computes (arrange_computes ?_) depth
  rw [settle_slots]
  exact spread_computes d

/-- The words of a derivation evaluate to its value, unless they are too deep. -/
theorem calculateTokensWithin_of_deep (d : Phrase .level) (reading depth : Nat)
    (env : Environment) :
    (calculateTokensWithin reading depth d.tokens env).result = .error .tooDeep ∨
      calculateTokensWithin reading depth d.tokens env = d.value.outcome env := by
  unfold calculateTokensWithin
  rcases reading_yields d reading with deep | read
  · rw [deep]
    exact .inl rfl
  · rw [read]
    exact (arranged_computes d depth).outcome env

theorem calculateTokensWithin_of_height {d : Phrase .level} {reading depth : Nat}
    (h : d.height < reading) (h' : d.height < depth) (env : Environment) :
    calculateTokensWithin reading depth d.tokens env = d.value.outcome env := by
  have reaches : reachAll (arrange d.slots) < depth := by
    have settled : reachAll (settle d.slots) ≤ d.height := by
      rw [settle_slots]
      exact spread_reaches d
    have := arrange_reaches settled
    omega
  unfold calculateTokensWithin
  rw [reading_of_height h]
  show (evaluateWithin depth .round (arrange d.slots)).outcome env = _
  rw [(arranged_computes d depth).eq (evaluateWithin_finishes reaches)]

/-- Precedence by grouping is right: whatever the bounds on the depth are, the words
of a derivation have the outcome of its value. Too deep are only derivations that
are as high as one of the bounds. -/
theorem calculateTokensWithin_eq_value (d : Phrase .level) (reading depth : Nat)
    (env : Environment) :
    calculateTokensWithin reading depth d.tokens env = d.value.outcome env ∨
      min reading depth ≤ d.height ∧
        (calculateTokensWithin reading depth d.tokens env).result = .error .tooDeep := by
  by_cases h : d.height < min reading depth
  · exact .inl (calculateTokensWithin_of_height (by omega) (by omega) env)
  · rcases calculateTokensWithin_of_deep d reading depth env with deep | same
    · exact .inr ⟨by omega, deep⟩
    · exact .inl same

end Calculator
