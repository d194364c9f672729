import Calculator.Proofs.Balance
import Calculator.Proofs.Extents

/-!
# What the tokens of a tree stand for

Every token of a tree stands for words in a row of the text, an implied product for
none. This holds of all texts that can be read, whether they can be evaluated or not.

* `Fenced`: implied products stand between operands.
* `Token.StandsFor`, `StandAll`: the words that a token and a list stand for. A token
  is placed from the first to the last of them (`StandsFor.span`).
* `standAll_combine`: the list that matched brackets are grouped into stands for all
  their words.
-/

namespace Calculator

/-! ## Implied products -/

/-- An implied product stands between two operands. The flag tells whether an operand
comes before the list. -/
inductive Fenced : Bool → List Token → Prop where
  | nil {after : Bool} : Fenced after []
  | cons {after : Bool} {t : Token} {rest : List Token} (written : t ≠ impliedTimes)
      (tail : Fenced t.isOperand rest) : Fenced after (t :: rest)
  | implied {rest : List Token} (next : rest.head?.any Token.isOperand = true)
      (tail : Fenced false rest) : Fenced true (impliedTimes :: rest)

theorem written_of_isOperand {t : Token} (operand : t.isOperand = true) : t ≠ impliedTimes := by
  rintro rfl
  cases operand

theorem Fenced.tail {after : Bool} {t : Token} {rest : List Token} (h : Fenced after (t :: rest))
    (written : t ≠ impliedTimes) : Fenced t.isOperand rest := by
  cases h with
  | cons _ tail => exact tail
  | implied _ _ => exact absurd rfl written

theorem Fenced.of_linked {links : Token → Bool} {ts : List Token} (linked : Linked links ts)
    (after : Bool) : Fenced after ts := by
  induction linked generalizing after with
  | one operand => exact .cons (written_of_isOperand operand) .nil
  | @more t op rest operand link tail ih =>
    refine .cons (written_of_isOperand operand) ?_
    by_cases written : op = impliedTimes
    · rw [written, operand]
      exact .implied tail.head (ih false)
    · exact .cons written (ih op.isOperand)

theorem fenced_insertProducts {ts : List Token} (written : ∀ t ∈ ts, t ≠ impliedTimes)
    (after : Bool) : Fenced after (insertProducts ts) := by
  induction ts generalizing after with
  | nil => exact .nil
  | cons t ts ih =>
    have first := written t List.mem_cons_self
    have others := ih fun x hx => written x (List.mem_cons_of_mem _ hx)
    rw [insertProducts]
    split
    · rename_i quantities
      rw [Bool.and_eq_true] at quantities
      refine .cons first ?_
      rw [Token.isOperand_of_isQuantity quantities.1]
      refine .implied ?_ (others false)
      cases ts with
      | nil => cases quantities.2
      | cons x ts =>
        obtain ⟨back, h⟩ := insertProducts_head x ts
        rw [h]
        exact Token.isOperand_of_isQuantity quantities.2
    · exact .cons first (others t.isOperand)

section

variable {links : Token → Bool} {bundle : List Token → Token}
  (single : ∀ t, bundle [t] = t) (operand : ∀ {c}, Linked links c → (bundle c).isOperand = true)

include single operand

/-- The first of the bundled chains is an operand if the first token is one; a token
that is none is a chain of its own. -/
theorem bundled_cons (t : Token) (ts : List Token) :
    ∃ first others, (chains links (t :: ts)).map bundle = first :: others ∧
      first.isOperand = t.isOperand ∧
      (t.isOperand = false → first = t ∧ others = (chains links ts).map bundle) := by
  cases ts with
  | nil => exact ⟨t, [], by simp [chains, single], rfl, fun _ => ⟨rfl, rfl⟩⟩
  | cons op rest =>
    by_cases linked : (t.isOperand && links op && rest.head?.any Token.isOperand) = true
    · cases h : chains links rest with
      | nil => simp [eq_nil_of_chains h] at linked
      | cons chain others =>
        have whole := linked_of_chains_cons linked h
        have same := chains_cons_of_linked linked h
        simp only [Bool.and_eq_true] at linked
        refine ⟨_, _, by rw [same, List.map_cons], ?_, ?_⟩
        · rw [operand whole, linked.1.1]
        · simp [linked.1.1]
    · rw [chains, if_neg linked, List.map_cons, single]
      exact ⟨t, _, rfl, rfl, fun _ => ⟨rfl, rfl⟩⟩

theorem head_bundled (ts : List Token) :
    ((chains links ts).map bundle).head?.any Token.isOperand = ts.head?.any Token.isOperand := by
  cases ts with
  | nil => rfl
  | cons t ts =>
    obtain ⟨first, others, h, same, _⟩ := bundled_cons single operand t ts
    rw [h]
    exact same

/-- Chains in one token each leave the implied products between operands. -/
theorem fenced_bundled {ts : List Token} {after : Bool} (h : Fenced after ts) :
    Fenced after ((chains links ts).map bundle) := by
  fun_induction chains links ts generalizing after with
  | case1 => exact .nil
  | case2 t =>
    rw [List.map_cons, single]
    exact h
  | case3 t op rest linked none ih =>
    simp [eq_nil_of_chains none] at linked
  | case4 t op rest linked chain others some ih =>
    have whole := linked_of_chains_cons linked some
    simp only [Bool.and_eq_true] at linked
    have first := (head_bundled single operand rest).trans linked.2
    obtain ⟨before, tail⟩ : ∃ before, Fenced before rest := by
      have inner := h.tail (written_of_isOperand linked.1.1)
      generalize t.isOperand = b at inner
      cases inner with
      | cons _ tail => exact ⟨_, tail⟩
      | implied _ tail => exact ⟨_, tail⟩
    have others' := ih tail
    rw [some] at first others'
    have operand' : (bundle chain).isOperand = true := first
    have after := others'.tail (written_of_isOperand operand')
    rw [operand'] at after
    refine .cons (written_of_isOperand (operand whole)) ?_
    rwa [operand whole]
  | case5 t op rest apart ih =>
    rw [List.map_cons, single]
    cases h with
    | cons written tail => exact .cons written (ih tail)
    | implied next tail => exact .implied ((head_bundled single operand _).trans next) (ih tail)

end

/-! ## What tokens stand for -/

mutual

/-- The words of the text that a token stands for: itself, a bracketed group, or what
is grouped in it. -/
inductive Token.StandsFor : Token → List Token → Prop where
  | word {t : Token} (plain : t.isPlain = true) (word : t.isWord = true) : Token.StandsFor t [t]
  | function (name : Word) {f : Function} (known : Function.called? name.lexeme = some f) :
      Token.StandsFor (name.token .function) [name.token .identifier]
  | implied : Token.StandsFor impliedTimes []
  | bracket (family : Bracket) (opening closing : Span) {ts words : List Token}
      (contents : StandAll ts words) (fenced : Fenced false ts) :
      Token.StandsFor (.group family ts ⟨opening.start, closing.stop⟩)
        (.leaf (.opening family) family.opener opening ::
          (words ++ [.leaf (.closing family) family.closer closing]))
  | grouping {ts words : List Token} (contents : StandAll ts words) (fenced : Fenced false ts)
      (some : words ≠ []) (place : spanning ts = extent words) :
      Token.StandsFor (.grouping ts) words

/-- The words that the tokens of a list stand for, one after the other. -/
inductive StandAll : List Token → List Token → Prop where
  | nil : StandAll [] []
  | cons {t : Token} {ts words words' : List Token} (first : t.StandsFor words)
      (others : StandAll ts words') : StandAll (t :: ts) (words ++ words')

end

namespace Token.StandsFor

variable {t : Token} {words : List Token}

/-- A token is placed from the first to the last of its words. -/
theorem span (h : t.StandsFor words) : t.span = extent words := by
  cases h with
  | word plain word => rfl
  | function name known => rfl
  | implied => rfl
  | bracket family opening closing contents fenced =>
    rw [extent_cons _ (by simp), extent_append_stop _ (List.cons_ne_nil _ _)]
    rfl
  | grouping contents fenced some place => exact place

theorem ne_nil (h : t.StandsFor words) (written : t ≠ impliedTimes) : words ≠ [] := by
  cases h with
  | word plain word => exact List.cons_ne_nil _ _
  | function name known => exact List.cons_ne_nil _ _
  | implied => exact absurd rfl written
  | bracket family opening closing contents fenced => exact List.cons_ne_nil _ _
  | grouping contents fenced some place => exact some

theorem written {size : Nat} (h : t.StandsFor words) (order : InOrder size words)
    (some : words ≠ []) : t ≠ impliedTimes := by
  rintro rfl
  have known := isKnown_extent order some
  rw [← h.span] at known
  revert known
  decide

end Token.StandsFor

namespace StandAll

variable {t : Token} {ts us words : List Token} {size : Nat}

theorem single (h : t.StandsFor words) : StandAll [t] words := by
  have := StandAll.cons h .nil
  rwa [List.append_nil] at this

theorem split (h : StandAll (ts ++ us) words) :
    ∃ front back, words = front ++ back ∧ StandAll ts front ∧ StandAll us back := by
  induction ts generalizing words with
  | nil => exact ⟨[], words, rfl, .nil, h⟩
  | cons t ts ih =>
    cases h with
    | @cons _ _ p _ first others =>
      obtain ⟨front, back, rfl, left, right⟩ := ih others
      exact ⟨p ++ front, back, (List.append_assoc _ _ _).symm, .cons first left, right⟩

/-- The spans of a list joined to the extent of the words before it. -/
theorem foldl_join {front : List Token} (h : StandAll ts words)
    (order : InOrder size (front ++ words)) (some : front ≠ []) :
    ((ts.map Token.span).filter Span.isKnown).foldl Span.join (extent front) =
      extent (front ++ words) := by
  induction ts generalizing front words with
  | nil =>
    cases h
    rw [List.append_nil]
    rfl
  | cons t ts ih =>
    cases h with
    | @cons _ _ p q first others =>
      rw [← List.append_assoc] at order ⊢
      rw [List.map_cons, first.span]
      by_cases none : p = []
      · subst none
        rw [List.filter_cons_of_neg (by decide), List.append_nil]
        rw [List.append_nil] at order
        exact ih others order some
      · rw [List.filter_cons_of_pos (isKnown_extent order.left.right none), List.foldl_cons,
          join_extent order.left some none]
        exact ih others order (by simp [some])

/-- The least span around a list of tokens. -/
theorem spanning (h : StandAll ts words) (order : InOrder size words) :
    spanning ts = extent words := by
  induction ts generalizing words with
  | nil =>
    cases h
    rfl
  | cons t ts ih =>
    cases h with
    | @cons _ _ p q first others =>
      rw [Calculator.spanning, Span.enclosing, List.map_cons, first.span]
      by_cases none : p = []
      · subst none
        rw [List.filter_cons_of_neg (by decide)]
        exact ih others order
      · rw [List.filter_cons_of_pos (isKnown_extent order.left none)]
        exact others.foldl_join order none

theorem grouping (h : StandAll ts words) (fenced : Fenced false ts) (order : InOrder size words)
    (some : words ≠ []) : (Token.grouping ts).StandsFor words :=
  .grouping h fenced some (h.spanning order)

end StandAll

/-! ## Binding -/

section

variable {size bound : Nat}
  (inside : ∀ f : Forest, f.tokens.length < bound → (∀ t ∈ f.tokens, t.isWord = true) →
    InOrder size f.tokens →
    StandAll (combine f.resolved) f.tokens ∧ Fenced false (combine f.resolved))

include inside

theorem standsFor_of_spans {t : Token} {words : List Token} (spans : t.Spans words)
    (short : words.length ≤ bound) (known : ∀ w ∈ words, w.isWord = true)
    (order : InOrder size words) : t.StandsFor words := by
  cases spans with
  | word plain word => exact .word plain word
  | group family opening closing f =>
    simp only [List.length_cons, List.length_append, List.length_nil] at short
    have part : f.tokens.Sublist (.leaf (.opening family) family.opener opening ::
        (f.tokens ++ [.leaf (.closing family) family.closer closing])) :=
      (List.sublist_append_left _ _).cons _
    obtain ⟨contents, fenced⟩ := inside f (by omega) (fun w hw => known w (part.subset hw))
      (order.sublist part)
    exact .bracket family opening closing contents fenced

theorem standsFor_of_spells {t : Token} {words : List Token} (spells : Spells t words)
    (short : words.length ≤ bound) (known : ∀ w ∈ words, w.isWord = true)
    (order : InOrder size words) : t.StandsFor words ∧ t ≠ impliedTimes := by
  induction spells with
  | item spans =>
    have stands := standsFor_of_spans inside spans short known order
    refine ⟨stands, stands.written order ?_⟩
    cases spans with
    | word plain word => exact List.cons_ne_nil _ _
    | group family opening closing f => exact List.cons_ne_nil _ _
  | @call name f called t words quantity spans =>
    rw [← List.singleton_append] at order
    have argument := standsFor_of_spans inside spans (by simp at short; omega)
      (fun w hw => known w (List.mem_cons_of_mem _ hw)) order.right
    have fenced : Fenced false [name.token .function, t] :=
      .cons (by simp [Word.token, impliedTimes])
        (.cons (written_of_isOperand (Token.isOperand_of_isQuantity quantity)) .nil)
    have contents : StandAll [name.token .function, t] ([name.token .identifier] ++ words) :=
      .cons (.function name called) (.single argument)
    exact ⟨contents.grouping fenced order (by simp), written_of_isOperand rfl⟩
  | @factorial t words spells mark ih =>
    obtain ⟨operand, written⟩ := ih (by simp at short; omega) (fun w hw => known w (by simp [hw]))
      order.left
    have fenced : Fenced false [t, mark.token .factorial] :=
      .cons written (.cons (by simp [Word.token, impliedTimes]) .nil)
    have contents : StandAll [t, mark.token .factorial] (words ++ [mark.token .factorial]) :=
      .cons operand (.single (.word rfl rfl))
    exact ⟨contents.grouping fenced order (by simp), written_of_isOperand rfl⟩

theorem standAll_of_spellAll {ts : List Token} {parts : List (List Token)}
    (all : SpellAll ts parts) (short : parts.flatten.length ≤ bound)
    (known : ∀ w ∈ parts.flatten, w.isWord = true) (order : InOrder size parts.flatten) :
    StandAll ts parts.flatten ∧ ∀ t ∈ ts, t ≠ impliedTimes := by
  induction all with
  | nil => exact ⟨.nil, by simp⟩
  | @cons t words ts parts spells others ih =>
    rw [List.flatten_cons] at order
    rw [List.flatten_cons, List.length_append] at short
    obtain ⟨first, written⟩ := standsFor_of_spells inside spells (by omega)
      (fun w hw => known w (by simp [hw])) order.left
    obtain ⟨rest, written'⟩ := ih (by omega)
      (fun w hw => known w (by rw [List.flatten_cons]; exact List.mem_append_right _ hw))
      order.right
    exact ⟨.cons first rest, List.forall_mem_cons.2 ⟨written, written'⟩⟩

end

theorem standAll_insertProducts {ts words : List Token} (h : StandAll ts words) :
    StandAll (insertProducts ts) words := by
  induction ts generalizing words with
  | nil => exact h
  | cons t ts ih =>
    cases h with
    | cons first others =>
      rw [insertProducts]
      split
      · exact .cons first (.cons .implied (ih others))
      · exact .cons first (ih others)

/-! ## Chains -/

section

variable {links : Token → Bool} {size : Nat}

theorem standsFor_lump {ts words : List Token} (linked : Linked links ts)
    (h : StandAll ts words) (order : InOrder size words) :
    (lump ts).StandsFor words ∧ (lump ts).isOperand = true := by
  have fenced : Fenced false ts := .of_linked linked false
  cases linked with
  | one operand =>
    cases h with
    | cons first others =>
      cases others
      rw [List.append_nil]
      exact ⟨first, operand⟩
  | more operand link tail =>
    refine ⟨h.grouping fenced order ?_, rfl⟩
    cases h with
    | cons first others =>
      have some := first.ne_nil (written_of_isOperand operand)
      simp [some]

theorem nestPowers_linked {ts : List Token} (linked : Linked Token.isPower ts) :
    Linked Token.isPower (nestPowers ts) := by
  cases linked with
  | one operand => exact .one operand
  | more operand link tail =>
    rw [nestPowers_cons tail]
    refine .more operand link (.one ?_)
    cases tail with
    | one operand => exact operand
    | more _ _ tail => cases tail <;> rfl

theorem standAll_nestPowers {ts words : List Token} (linked : Linked Token.isPower ts)
    (h : StandAll ts words) (order : InOrder size words) : StandAll (nestPowers ts) words := by
  induction linked generalizing words with
  | one operand => exact h
  | @more t op rest operand link tail ih =>
    rw [nestPowers_cons tail]
    cases h with
    | cons first others =>
      cases others with
      | cons mark others =>
        have exponent := ih others order.right.right
        exact .cons first (.cons mark (.single
          (standsFor_lump (nestPowers_linked tail) exponent order.right.right).1))

end

section

variable {links : Token → Bool} {fold : List Token → List Token} {size : Nat}
  (single : ∀ t, fold [t] = [t])
  (folds : ∀ {c words}, Linked links c → StandAll c words → InOrder size words →
    StandAll (fold c) words)
  (linked : ∀ {c}, Linked links c → Linked links (fold c))

include single folds linked

theorem standAll_wrapped {ts words : List Token} (h : StandAll ts words)
    (order : InOrder size words) : StandAll ((chains links ts).map (lump ∘ fold)) words := by
  have shapes : ∀ c ∈ chains links ts, (∃ t, c = [t]) ∨ Linked links c :=
    fun c => linked_of_mem_chains
  rw [← chains_flatten links ts] at h
  generalize chains links ts = cs at h shapes
  induction cs generalizing words with
  | nil => exact h
  | cons c cs ih =>
    obtain ⟨front, back, rfl, first, others⟩ := h.split
    refine .cons ?_ (ih order.right others fun d hd => shapes d (List.mem_cons_of_mem _ hd))
    rcases shapes c List.mem_cons_self with ⟨t, rfl⟩ | chain
    · rw [Function.comp_apply, single]
      cases first with
      | cons first none =>
        cases none
        rwa [List.append_nil]
    · exact (standsFor_lump (linked chain) (folds chain first order.left) order.left).1

theorem standAll_groupChains
    (wraps : ∀ ts, wrapped links fold ts = (chains links ts).map (lump ∘ fold))
    {ts words : List Token} (h : StandAll ts words) (fenced : Fenced false ts)
    (order : InOrder size words) :
    StandAll (groupChains links fold ts) words ∧ Fenced false (groupChains links fold ts) := by
  rcases wrapped_eq links single ts with same | ⟨t, op, rest, _, chain, folded, _⟩
  · have alone : ∀ t, (lump ∘ fold) [t] = t := fun t => congrArg lump (single t)
    rw [← same, wraps]
    exact ⟨standAll_wrapped single folds linked h order,
      fenced_bundled alone (fun c => lump_isOperand (linked c)) fenced⟩
  · rw [folded]
    exact ⟨folds chain h order, .of_linked (linked chain) false⟩

end

theorem standAll_arrange {size : Nat} {ts words : List Token} (h : StandAll ts words)
    (fenced : Fenced false ts) (order : InOrder size words) :
    StandAll (arrange ts) words ∧ Fenced false (arrange ts) := by
  obtain ⟨powers, fenced⟩ := standAll_groupChains (fun _ => rfl) standAll_nestPowers
    nestPowers_linked wrapped_powers_eq h fenced order
  exact standAll_groupChains (fun _ => rfl) (fun _ h _ => h) (fun c => c) wrapped_products_eq
    powers fenced order

/-! ## Trees -/

/-- What matched brackets are grouped into stands for all their words. -/
theorem standAll_combine {size : Nat} {f : Forest} (known : ∀ t ∈ f.tokens, t.isWord = true)
    (order : InOrder size f.tokens) :
    StandAll (combine f.resolved) f.tokens ∧ Fenced false (combine f.resolved) := by
  induction count : f.tokens.length using Nat.strong_induction_on generalizing f with
  | _ n ih =>
    have inside : ∀ g : Forest, g.tokens.length < n → (∀ t ∈ g.tokens, t.isWord = true) →
        InOrder size g.tokens →
        StandAll (combine g.resolved) g.tokens ∧ Fenced false (combine g.resolved) :=
      fun g short known order => ih _ short known order rfl
    obtain ⟨parts, all, flat⟩ := spellAll_bindCalls f known
    rw [← flat] at count known order ⊢
    obtain ⟨bound, written⟩ := standAll_of_spellAll inside all (Nat.le_of_eq count) known order
    exact standAll_arrange (standAll_insertProducts bound) (fenced_insertProducts written false)
      order

/-- The tree of a text stands for all its words. -/
theorem standAll_of_parseWithin {limit : Nat} {code : String} {tree : List Token}
    (h : parseWithin limit code = .ok tree) :
    ∃ tokens, scan code = .ok tokens ∧ StandAll tree tokens ∧ Fenced false tree := by
  obtain ⟨f, scanned, rfl, known⟩ := exists_forest_of_parseWithin h
  exact ⟨f.tokens, scanned, standAll_combine known (inOrder_of_scan scanned)⟩

end Calculator
