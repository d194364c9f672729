import Calculator.Proofs.Brackets
import Calculator.Proofs.Passes

/-!
# How a derivation is grouped

The lists that the words of a derivation become on their way to a tree.

* `Phrase.items`: every bracketed group in one token.
* `Phrase.slots`: operands and operators in turn (`separate_items`).
* `Phrase.spread`: each product and each power in one token (`settle_slots`).
-/

namespace Calculator

/-! ## The lists -/

namespace Phrase

/-- Operands and operators in turn. -/
def slots {r : Rank} : Phrase r → List Token
  | number w => [w.token .number]
  | bracket family opening closing inside =>
      [.group family (arrange inside.slots) ⟨opening.start, closing.stop⟩]
  | quantity q => q.slots
  | name w => [w.token .identifier]
  | call word _ _ argument => [.grouping (word.token .function :: argument.slots)]
  | factorial operand mark => [.grouping (operand.slots ++ [mark.token .factorial])]
  | item operand => operand.slots
  | raised base mark exponent => base.slots ++ mark.token (.operator .power) :: exponent.slots
  | power p => p.slots
  | times left op _ mark right => left.slots ++ mark.token (.operator op) :: right.slots
  | beside left right => left.slots ++ impliedTimes :: right.slots
  | product p => p.slots
  | signed op _ mark p => mark.token (.operator op) :: p.slots
  | plus left op _ mark right => left.slots ++ mark.token (.operator op) :: right.slots
  | sum s => s.slots
  | assigned target mark value => target.token .identifier :: mark.token .assign :: value.slots

/-- The words with every bracketed group in one token. -/
def items {r : Rank} : Phrase r → List Token
  | number w => [w.token .number]
  | bracket family opening closing inside =>
      [.group family (combine inside.items) ⟨opening.start, closing.stop⟩]
  | quantity q => q.items
  | name w => [w.token .identifier]
  | call word _ _ argument => word.token .identifier :: argument.items
  | factorial operand mark => operand.items ++ [mark.token .factorial]
  | item operand => operand.items
  | raised base mark exponent => base.items ++ mark.token (.operator .power) :: exponent.items
  | power p => p.items
  | times left op _ mark right => left.items ++ mark.token (.operator op) :: right.items
  | beside left right => left.items ++ right.items
  | product p => p.items
  | signed op _ mark p => mark.token (.operator op) :: p.items
  | plus left op _ mark right => left.items ++ mark.token (.operator op) :: right.items
  | sum s => s.items
  | assigned target mark value => target.token .identifier :: mark.token .assign :: value.items

/-- The operands with their powers and products grouped. -/
def spread {r : Rank} : Phrase r → List Token
  | number w => (number w).slots
  | bracket family opening closing inside => (bracket family opening closing inside).slots
  | quantity q => q.slots
  | name w => (name w).slots
  | call word f known argument => (call word f known argument).slots
  | factorial operand mark => (factorial operand mark).slots
  | item operand => operand.slots
  | raised base mark exponent =>
      base.slots ++ [mark.token (.operator .power), lump exponent.spread]
  | power p => [lump p.spread]
  | times left op _ mark right => left.spread ++ [mark.token (.operator op), lump right.spread]
  | beside left right => left.spread ++ [impliedTimes, lump right.spread]
  | product p => [lump p.spread]
  | signed op _ mark p => [mark.token (.operator op), lump p.spread]
  | plus left op _ mark right => left.spread ++ [mark.token (.operator op), lump right.spread]
  | sum s => s.spread
  | assigned target mark value => target.token .identifier :: mark.token .assign :: value.spread

end Phrase

open Phrase

/-- A phrase of the rank may end with a bare name. -/
def Rank.last : Rank → Bool
  | .quantity => false
  | .operand bare => bare
  | .power _ last | .product last | .sum last => last
  | .level => true

/-! ## First and last items -/

theorem quantity_items (q : Phrase .quantity) : ∃ t, q.items = [t] ∧ t.isQuantity = true := by
  cases q with
  | number w => exact ⟨_, rfl, rfl⟩
  | bracket family opening closing inside => exact ⟨_, rfl, rfl⟩

theorem quantity_slots (q : Phrase .quantity) : ∃ t, q.slots = [t] ∧ t.isQuantity = true := by
  cases q with
  | number w => exact ⟨_, rfl, rfl⟩
  | bracket family opening closing inside => exact ⟨_, rfl, rfl⟩

theorem operand_slots {bare : Bool} (p : Phrase (.operand bare)) :
    ∃ t, p.slots = [t] ∧ t.isOperand = true ∧ (bare = false → t.isQuantity = true) := by
  cases p with
  | quantity q =>
    obtain ⟨t, h, quantity⟩ := quantity_slots q
    exact ⟨t, h, t.isOperand_of_isQuantity quantity, fun _ => quantity⟩
  | name w => exact ⟨_, rfl, rfl, fun h => by cases h⟩
  | call word f known argument => exact ⟨_, rfl, rfl, fun _ => rfl⟩
  | factorial operand mark => exact ⟨_, rfl, rfl, fun _ => rfl⟩

/-- Only a sign or an operand begins a phrase. -/
theorem items_head {r : Rank} (d : Phrase r) :
    ∃ t rest, d.items = t :: rest ∧ t.isFactorial = false := by
  induction d with
  | number w => exact ⟨_, _, rfl, rfl⟩
  | bracket family opening closing inside _ => exact ⟨_, _, rfl, rfl⟩
  | quantity q ih => exact ih
  | name w => exact ⟨_, _, rfl, rfl⟩
  | call word f known argument _ => exact ⟨_, _, rfl, rfl⟩
  | factorial operand mark ih =>
    obtain ⟨t, rest, h, other⟩ := ih
    exact ⟨t, _, by rw [items, h]; rfl, other⟩
  | item operand ih => exact ih
  | raised base mark exponent ih _ =>
    obtain ⟨t, rest, h, other⟩ := ih
    exact ⟨t, _, by rw [items, h]; rfl, other⟩
  | power p ih => exact ih
  | times left op known mark right ih _ =>
    obtain ⟨t, rest, h, other⟩ := ih
    exact ⟨t, _, by rw [items, h]; rfl, other⟩
  | beside left right ih _ =>
    obtain ⟨t, rest, h, other⟩ := ih
    exact ⟨t, _, by rw [items, h]; rfl, other⟩
  | product p ih => exact ih
  | signed op known mark p _ => exact ⟨_, _, rfl, rfl⟩
  | plus left op known mark right ih _ =>
    obtain ⟨t, rest, h, other⟩ := ih
    exact ⟨t, _, by rw [items, h]; rfl, other⟩
  | sum s ih => exact ih
  | assigned target mark value _ => exact ⟨_, _, rfl, rfl⟩

/-- A power begins with a value unless it may begin with a bare name. -/
theorem power_slots_head {first last : Bool} (p : Phrase (.power first last)) :
    ∃ t rest, p.slots = t :: rest ∧ (first = false → t.isQuantity = true) := by
  cases p with
  | item operand =>
    obtain ⟨t, h, _, quantity⟩ := operand_slots operand
    exact ⟨t, [], h, quantity⟩
  | raised base mark exponent =>
    obtain ⟨t, h, _, quantity⟩ := operand_slots base
    exact ⟨t, _, by rw [slots, h]; rfl, quantity⟩

/-- A product ends with a value unless it may end with a bare name. -/
theorem slots_last {r : Rank} (d : Phrase r) :
    ∃ front t, d.slots = front ++ [t] ∧ (r.last = false → t.isQuantity = true) := by
  induction d with
  | number w => exact ⟨[], _, rfl, fun _ => rfl⟩
  | bracket family opening closing inside _ => exact ⟨[], _, rfl, fun _ => rfl⟩
  | quantity q ih => exact ih
  | name w => exact ⟨[], _, rfl, fun h => by cases h⟩
  | call word f known argument _ => exact ⟨[], _, rfl, fun _ => rfl⟩
  | factorial operand mark _ => exact ⟨[], _, rfl, fun _ => rfl⟩
  | item operand ih => exact ih
  | raised base mark exponent _ ih =>
    obtain ⟨front, t, h, quantity⟩ := ih
    exact ⟨base.slots ++ mark.token (.operator .power) :: front, t, by simp [slots, h], quantity⟩
  | power p ih => exact ih
  | times left op known mark right _ ih =>
    obtain ⟨front, t, h, quantity⟩ := ih
    exact ⟨left.slots ++ mark.token (.operator op) :: front, t, by simp [slots, h], quantity⟩
  | beside left right _ ih =>
    obtain ⟨front, t, h, quantity⟩ := ih
    exact ⟨left.slots ++ impliedTimes :: front, t, by simp [slots, h], quantity⟩
  | product p ih => exact ih
  | signed op known mark p ih =>
    obtain ⟨front, t, h, quantity⟩ := ih
    exact ⟨mark.token (.operator op) :: front, t, by simp [slots, h], quantity⟩
  | plus left op known mark right _ ih =>
    obtain ⟨front, t, h, quantity⟩ := ih
    exact ⟨left.slots ++ mark.token (.operator op) :: front, t, by simp [slots, h], quantity⟩
  | sum s ih =>
    obtain ⟨front, t, h, _⟩ := ih
    exact ⟨front, t, h, fun h => by cases h⟩
  | assigned target mark value ih =>
    obtain ⟨front, t, h, _⟩ := ih
    exact ⟨target.token .identifier :: mark.token .assign :: front, t, by simp [slots, h],
      fun h => by cases h⟩

/-! ## Separation -/

/-- A product is implied exactly where two powers stand side by side. -/
theorem separate_items {r : Rank} (d : Phrase r) : separate d.items = d.slots := by
  induction d with
  | number w => exact separate_singleton _
  | bracket family opening closing inside ih =>
    rw [items, separate_singleton, combine_eq, ih, slots]
  | quantity q ih => exact ih
  | name w => exact separate_singleton _
  | call word f known argument ih =>
    obtain ⟨t, h, quantity⟩ := quantity_items argument
    have bound : bind? (word.token .identifier) t =
        some (.grouping [word.token .function, t]) := by
      have other : t.isFactorial = false := by
        cases t with
        | leaf kind lexeme span => cases kind <;> first | rfl | cases quantity
        | pointer level lexeme span => cases quantity
        | group family tokens span => rfl
      simp [bind?, Word.token, other, known, quantity]
    have calls : bindCalls [word.token .identifier, t] =
        [.grouping [word.token .function, t]] := by
      rw [bindCalls, bindFrom, bound]
      rfl
    rw [h, separate_singleton] at ih
    rw [items, h, separate, calls, slots, ← ih]
    exact insertProducts_singleton _
  | factorial operand mark ih =>
    obtain ⟨t, h, isOperand, _⟩ := operand_slots operand
    have bound : bind? t (mark.token .factorial) =
        some (.grouping [t, mark.token .factorial]) := by
      have is_mark : (mark.token .factorial).isFactorial = true := rfl
      unfold bind?
      rw [is_mark, isOperand]
      rfl
    have before : bindCalls operand.items = [] ++ [t] := bindCalls_of_separate (ih.trans h)
    rw [items, separate, bindCalls_append before, bindFrom, bound, slots, h]
    exact insertProducts_singleton _
  | item operand ih => exact ih
  | raised base mark exponent ih ih' =>
    rw [items, separate_append_operator rfl rfl, ih, ih', slots]
  | power p ih => exact ih
  | times left op known mark right ih ih' =>
    rw [items, separate_append_operator rfl rfl, ih, ih', slots]
  | beside left right ih ih' =>
    obtain ⟨front, t, hl, ends⟩ := slots_last left
    obtain ⟨x, back, hr, begins⟩ := power_slots_head right
    obtain ⟨y, rest, hi, other⟩ := items_head right
    -- The left one ends with a value, which binds nothing but a factorial.
    have apart : bind? t y = none := bind?_of_isQuantity (ends rfl) other
    rw [hi] at ih'
    rw [items, hi, separate_append (ih.trans hl) (ih'.trans hr) apart, ih, ih', between,
      ends rfl, begins rfl, slots]
    simp
  | product p ih => exact ih
  | signed op known mark p ih => rw [items, separate_cons rfl, ih, slots]
  | plus left op known mark right ih ih' =>
    rw [items, separate_append_operator rfl rfl, ih, ih', slots]
  | sum s ih => exact ih
  | assigned target mark value ih =>
    have border : (mark.token .assign).isOperand = false := rfl
    have e := separate_append_operator border rfl [target.token .identifier] value.items
    rw [separate_singleton, ih] at e
    exact e

/-! ## Powers and products in one token -/

theorem lump_isOperand {links : Token → Bool} {ts : List Token} (h : Linked links ts) :
    (lump ts).isOperand = true := by
  cases h with
  | one operand => exact operand
  | more _ _ _ => rfl

theorem power_slots_linked {first last : Bool} :
    ∀ p : Phrase (.power first last), Linked Token.isPower p.slots
  | .item operand => by
    obtain ⟨t, h, isOperand, _⟩ := operand_slots operand
    rw [slots, h]
    exact .one isOperand
  | .raised base mark exponent => by
    obtain ⟨t, h, isOperand, _⟩ := operand_slots base
    rw [slots, h]
    exact .more isOperand rfl (power_slots_linked exponent)

theorem nestPowers_slots {first last : Bool} :
    ∀ p : Phrase (.power first last), nestPowers p.slots = p.spread
  | .item operand => by
    obtain ⟨t, h, _⟩ := operand_slots operand
    rw [spread, slots, h]
    rfl
  | .raised base mark exponent => by
    obtain ⟨t, h, _⟩ := operand_slots base
    rw [slots, h]
    rw [List.singleton_append, nestPowers_cons (power_slots_linked exponent),
      nestPowers_slots exponent, spread, h]
    rfl

theorem power_spread_linked {first last : Bool} :
    ∀ p : Phrase (.power first last), Linked Token.isPower p.spread
  | .item operand => power_slots_linked (.item operand)
  | .raised base mark exponent => by
    obtain ⟨t, h, isOperand, _⟩ := operand_slots base
    rw [spread, h]
    exact .more isOperand rfl (.one (lump_isOperand (power_spread_linked exponent)))

theorem wrapped_power {first last : Bool} (p : Phrase (.power first last)) :
    wrapped Token.isPower nestPowers p.slots = [lump p.spread] := by
  rw [wrapped_powers (power_slots_linked p), nestPowers_slots]

theorem isPower_of_product {op : Operator} (known : op.isProduct = true) (w : Word) :
    (w.token (.operator op)).isPower = false := by
  cases op <;> first | rfl | cases known

theorem wrapped_product {last : Bool} :
    ∀ p : Phrase (.product last), wrapped Token.isPower nestPowers p.slots = p.spread
  | .power p => wrapped_power p
  | .times left op known mark right => by
    rw [slots, wrapped_append rfl (isPower_of_product known mark), wrapped_product left,
      wrapped_power right, spread]
  | .beside left right => by
    rw [slots, wrapped_append rfl rfl, wrapped_product left, wrapped_power right, spread]

theorem product_spread_linked {last : Bool} :
    ∀ p : Phrase (.product last), Linked Token.isProduct p.spread
  | .power p => .one (lump_isOperand (power_spread_linked p))
  | .times left op known mark right =>
    (product_spread_linked left).append known (.one (lump_isOperand (power_spread_linked right)))
  | .beside left right =>
    (product_spread_linked left).append rfl (.one (lump_isOperand (power_spread_linked right)))

theorem settle_product {last : Bool} (p : Phrase (.product last)) :
    settle p.slots = [lump p.spread] := by
  rw [settle, wrapped_product, wrapped_products (product_spread_linked p)]

theorem isProduct_of_sign {op : Operator} (known : op.isSign = true) (w : Word) :
    (w.token (.operator op)).isProduct = false ∧ (w.token (.operator op)).isPower = false := by
  cases op <;> first | exact ⟨rfl, rfl⟩ | cases known

theorem settle_sum {last : Bool} : ∀ s : Phrase (.sum last), settle s.slots = s.spread
  | .product p => settle_product p
  | .signed op known mark p => by
    obtain ⟨product, power⟩ := isProduct_of_sign known mark
    have e := settle_append rfl product power [] p.slots
    rw [settle_product] at e
    exact e
  | .plus left op known mark right => by
    obtain ⟨product, power⟩ := isProduct_of_sign known mark
    rw [slots, settle_append rfl product power, settle_sum left, settle_product, spread]

/-- The passes over chains make the spread of a level out of its slots, up to one
group around the whole. -/
theorem settle_slots : ∀ d : Phrase .level, settle d.slots = d.spread
  | .sum s => settle_sum s
  | .assigned target mark value => by
    have border : (mark.token .assign).isOperand = false := rfl
    have e := settle_append border rfl rfl [target.token .identifier] value.slots
    rw [settle_slots value] at e
    exact e

/-! ## The forest of a derivation -/

theorem chains_length_append {op : Token} (operand : op.isOperand = false)
    (loose : op.isPower = false) {ts us : List Token} {n : Nat}
    (left : ∀ c ∈ chains Token.isPower ts, c.length ≤ n)
    (right : ∀ c ∈ chains Token.isPower us, c.length ≤ n) (pos : 0 < n) :
    ∀ c ∈ chains Token.isPower (ts ++ op :: us), c.length ≤ n := by
  intro c hc
  rw [chains_append operand loose] at hc
  rcases List.mem_append.1 hc with hc | hc
  · exact left c hc
  · rcases List.mem_cons.1 hc with rfl | hc
    · exact pos
    · exact right c hc

/-- A chain of powers counts as one group for each of its operators. -/
theorem chains_length {r : Rank} (d : Phrase r) :
    ∀ c ∈ chains Token.isPower d.slots, c.length ≤ 2 * d.height + 1 := by
  have single : ∀ (t : Token) (n : Nat), ∀ c ∈ chains Token.isPower [t], c.length ≤ 2 * n + 1 := by
    intro t n c hc
    rw [List.mem_singleton.1 hc, List.length_singleton]
    omega
  induction d with
  | number w => exact single _ _
  | bracket family opening closing inside _ => exact single _ _
  | quantity q ih => exact ih
  | name w => exact single _ _
  | call word f known argument _ => exact single _ _
  | factorial operand mark _ => exact single _ _
  | item operand ih => exact ih
  | raised base mark exponent _ ih =>
    intro c hc
    obtain ⟨t, h, _⟩ := operand_slots base
    rw [chains_of_linked (power_slots_linked _), List.mem_singleton] at hc
    have inner := ih exponent.slots
      (by rw [chains_of_linked (power_slots_linked _)]; exact List.mem_singleton_self _)
    rw [hc, slots, h, height]
    simp only [List.length_append, List.length_cons, List.length_nil]
    omega
  | power p ih =>
    intro c hc
    have := ih c hc
    rw [height]
    omega
  | times left op known mark right ih ih' =>
    rw [slots, height]
    refine chains_length_append rfl (isPower_of_product known mark) ?_ ?_ (by omega)
    · intro c hc; have := ih c hc; omega
    · intro c hc; have := ih' c hc; omega
  | beside left right ih ih' =>
    rw [slots, height]
    refine chains_length_append rfl rfl ?_ ?_ (by omega)
    · intro c hc; have := ih c hc; omega
    · intro c hc; have := ih' c hc; omega
  | product p ih => exact ih
  | signed op known mark p ih =>
    have none : ∀ c ∈ chains Token.isPower [], c.length ≤ 2 * p.height + 1 := by simp [chains]
    exact chains_length_append rfl (isProduct_of_sign known mark).2 none ih (by omega)
  | plus left op known mark right ih ih' =>
    rw [slots, height]
    refine chains_length_append rfl (isProduct_of_sign known mark).2 ?_ ?_ (by omega)
    · intro c hc; have := ih c hc; omega
    · intro c hc; have := ih' c hc; omega
  | sum s ih => exact ih
  | assigned target mark value ih =>
    rw [slots, height]
    have border : (mark.token .assign).isOperand = false := rfl
    refine chains_length_append border rfl (single (target.token .identifier) _) ?_ (by omega)
    intro c hc
    have := ih c hc
    omega

theorem powersWithin_items {r : Rank} (d : Phrase r) : powersWithin d.height d.items = true := by
  rw [powersWithin, separate_items, List.all_eq_true]
  exact fun c hc => decide_eq_true (chains_length d c hc)

theorem powersWithin_mono {ts : List Token} {limit limit' : Nat}
    (h : powersWithin limit ts = true) (le : limit ≤ limit') : powersWithin limit' ts = true := by
  rw [powersWithin, List.all_eq_true] at h ⊢
  intro c hc
  have := of_decide_eq_true (h c hc)
  exact decide_eq_true (by omega)

/-- A forest has these words, becomes these items when it is resolved, and is no
deeper than a bound. -/
def Forested (words items : List Token) (bound : Nat) : Prop :=
  ∃ f : Forest, f.tokens = words ∧ f.resolved = items ∧ ∀ limit, bound < limit → f.Fits limit

namespace Forested

variable {words items words' items' : List Token} {bound bound' : Nat}

theorem mono (h : Forested words items bound) (le : bound ≤ bound') :
    Forested words items bound' := by
  obtain ⟨f, ht, hr, fits⟩ := h
  exact ⟨f, ht, hr, fun limit hl => fits limit (by omega)⟩

theorem nil : Forested [] [] bound :=
  ⟨.nil, rfl, rfl, fun _ h => Nat.zero_lt_of_lt h⟩

theorem cons {t : Token} (plain : t.isPlain = true) (h : Forested words items bound) :
    Forested (t :: words) (t :: items) bound := by
  obtain ⟨f, ht, hr, fits⟩ := h
  refine ⟨.word t plain f, ?_, ?_, fits⟩
  · rw [Forest.tokens, ht]
  · rw [Forest.resolved, hr]

theorem append (h : Forested words items bound) (h' : Forested words' items' bound) :
    Forested (words ++ words') (items ++ items') bound := by
  obtain ⟨f, ht, hr, fits⟩ := h
  obtain ⟨g, ht', hr', fits'⟩ := h'
  refine ⟨f.append g, ?_, ?_, fun limit hl => (fits limit hl).append (fits' limit hl)⟩
  · rw [Forest.tokens_append, ht, ht']
  · rw [Forest.resolved_append, hr, hr']

theorem group (family : Bracket) (opening closing : Span) (h : Forested words items bound)
    (powers : powersWithin bound items = true) :
    Forested
      (.leaf (.opening family) family.opener opening ::
        (words ++ [.leaf (.closing family) family.closer closing]))
      [.group family (combine items) ⟨opening.start, closing.stop⟩] (bound + 1) := by
  obtain ⟨f, ht, hr, fits⟩ := h
  refine ⟨.group family opening closing f .nil, ?_, ?_, fun limit hl => ⟨fits _ (by omega), ?_, ?_⟩⟩
  · rw [Forest.tokens, ht]
    rfl
  · rw [Forest.resolved, hr]
    rfl
  · rw [hr]
    exact powersWithin_mono powers (by omega)
  · exact Nat.zero_lt_of_lt hl

end Forested

/-- The words of a derivation have their brackets matched, and resolving them
gives its items. -/
theorem forested_phrase {r : Rank} (d : Phrase r) : Forested d.tokens d.items d.height := by
  induction d with
  | number w => exact .cons rfl .nil
  | bracket family opening closing inside ih =>
    exact ih.group family opening closing (powersWithin_items inside)
  | quantity q ih => exact ih
  | name w => exact .cons rfl .nil
  | call word f known argument ih => exact .cons rfl (ih.mono (Nat.le_succ _))
  | factorial operand mark ih => exact (ih.mono (Nat.le_succ _)).append (.cons rfl .nil)
  | item operand ih => exact ih
  | raised base mark exponent ih ih' =>
    exact (ih.mono (by rw [height]; omega)).append (.cons rfl (ih'.mono (by rw [height]; omega)))
  | power p ih => exact ih.mono (Nat.le_succ _)
  | times left op known mark right ih ih' =>
    exact (ih.mono (by rw [height]; omega)).append (.cons rfl (ih'.mono (by rw [height]; omega)))
  | beside left right ih ih' =>
    exact (ih.mono (by rw [height]; omega)).append (ih'.mono (by rw [height]; omega))
  | product p ih => exact ih
  | signed op known mark p ih => exact .cons rfl ih
  | plus left op known mark right ih ih' =>
    exact (ih.mono (by rw [height]; omega)).append (.cons rfl (ih'.mono (by rw [height]; omega)))
  | sum s ih => exact ih
  | assigned target mark value ih =>
    exact .cons rfl (.cons rfl (ih.mono (Nat.le_succ _)))

end Calculator
