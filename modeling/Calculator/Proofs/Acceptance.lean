import Mathlib.Data.List.Chain
import Calculator.Session
import Calculator.Proofs.Runnable

/-!
# What is accepted

A text that has a value is one of the grammar: what the passes of grouping make of
other lists of words is never evaluated to an end.

* `Spells`: the words that one bound token stands for (`spellAll_bindCalls`).
* `Derives`: words that are those of a derivation.
* `exists_phrase`: the words of what is evaluated are those of a derivation.
* `scan_derivable_of_value`: so are the words of a text that has a value.
-/

namespace Calculator

open Evaluation

/-! ## The words of a bound token -/

/-- The words of an item: itself, or those of a bracketed group. -/
inductive Token.Spans : Token → List Token → Prop where
  | word {t : Token} (plain : t.isPlain = true) (word : t.isWord = true) : t.Spans [t]
  | group (family : Bracket) (opening closing : Span) (inside : Forest) :
      Token.Spans (.group family (combine inside.resolved) ⟨opening.start, closing.stop⟩)
        (.leaf (.opening family) family.opener opening ::
          (inside.tokens ++ [.leaf (.closing family) family.closer closing]))

/-- The words of a token that calls and factorials are bound in. -/
inductive Spells : Token → List Token → Prop where
  | item {t : Token} {words : List Token} (spans : t.Spans words) : Spells t words
  | call (name : Word) {f : Function} (known : Function.called? name.lexeme = some f)
      {t : Token} {words : List Token} (quantity : t.isQuantity = true)
      (spans : t.Spans words) :
      Spells (.grouping [name.token .function, t]) (name.token .identifier :: words)
  | factorial {t : Token} {words : List Token} (spells : Spells t words) (mark : Word) :
      Spells (.grouping [t, mark.token .factorial]) (words ++ [mark.token .factorial])

theorem Spells.of_leaf {kind : Kind} {w : Word} {words : List Token}
    (h : Spells (w.token kind) words) : words = [w.token kind] := by
  cases h with
  | item spans =>
    cases spans with
    | word plain word => rfl

theorem spells_of_bind? {held t bound : Token} {words words' : List Token}
    (spells : Spells held words) (spans : t.Spans words') (h : bind? held t = some bound) :
    Spells bound (words ++ words') := by
  unfold bind? at h
  split at h
  · rename_i marked
    cases h
    rw [Bool.and_eq_true] at marked
    cases t with
    | leaf kind lexeme span =>
      cases kind with
      | factorial =>
        have e : words' = [.leaf .factorial lexeme span] :=
          Spells.of_leaf (w := ⟨lexeme, span⟩) (.item spans)
        rw [e]
        exact .factorial spells ⟨lexeme, span⟩
      | _ => exact absurd marked.1 Bool.false_ne_true
    | pointer level lexeme span => exact absurd marked.1 Bool.false_ne_true
    | group family tokens span => exact absurd marked.1 Bool.false_ne_true
  · split at h
    · rename_i lexeme span _
      split at h
      · rename_i called
        cases h
        rw [Bool.and_eq_true] at called
        obtain ⟨f, known⟩ := Option.isSome_iff_exists.1 called.1
        have e : words = [.leaf .identifier lexeme span] :=
          Spells.of_leaf (w := ⟨lexeme, span⟩) spells
        rw [e]
        exact .call ⟨lexeme, span⟩ known called.2 spans
      · cases h
    · cases h

/-- Bound tokens in a row, with their words. -/
abbrev SpellAll : List Token → List (List Token) → Prop := List.Forall₂ Spells

theorem spellAll_bindFrom {held : Token} {words : List Token} (spells : Spells held words)
    (f : Forest) (known : ∀ t ∈ f.tokens, t.isWord = true) :
    ∃ parts, SpellAll (bindFrom held f.resolved) parts ∧ parts.flatten = words ++ f.tokens := by
  have step : ∀ {t : Token} {words' : List Token} {rest : Forest}, t.Spans words' →
      (∀ {held : Token} {words : List Token}, Spells held words → ∃ parts,
        SpellAll (bindFrom held rest.resolved) parts ∧ parts.flatten = words ++ rest.tokens) →
      ∀ {held : Token} {words : List Token}, Spells held words → ∃ parts,
        SpellAll (bindFrom held (t :: rest.resolved)) parts ∧
          parts.flatten = words ++ (words' ++ rest.tokens) := by
    intro t words' rest spans ih held words spells
    rw [bindFrom]
    cases h : bind? held t with
    | some bound =>
      obtain ⟨parts, all, flat⟩ := ih (spells_of_bind? spells spans h)
      exact ⟨parts, all, by rw [flat, List.append_assoc]⟩
    | none =>
      obtain ⟨parts, all, flat⟩ := ih (.item spans)
      exact ⟨words :: parts, .cons spells all, by rw [List.flatten_cons, flat]⟩
  induction f generalizing held words with
  | nil => exact ⟨[words], .cons spells .nil, rfl⟩
  | word t plain rest ih =>
    have word : t.isWord = true := known t List.mem_cons_self
    exact step (.word plain word)
      (fun spells => ih spells fun x hx => known x (List.mem_cons_of_mem _ hx)) spells
  | group family opening closing inside rest _ ih =>
    have e := step (.group family opening closing inside)
      (fun spells => ih spells fun x hx => known x (by simp [Forest.tokens, hx])) spells
    simpa [Forest.tokens, Forest.resolved] using e

theorem spellAll_bindCalls (f : Forest) (known : ∀ t ∈ f.tokens, t.isWord = true) :
    ∃ parts, SpellAll (bindCalls f.resolved) parts ∧ parts.flatten = f.tokens := by
  cases f with
  | nil => exact ⟨[], .nil, rfl⟩
  | word t plain rest =>
    have spans : t.Spans [t] := .word plain (known t List.mem_cons_self)
    exact spellAll_bindFrom (.item spans) rest fun x hx => known x (List.mem_cons_of_mem _ hx)
  | group family opening closing inside rest =>
    have e := spellAll_bindFrom (.item (.group family opening closing inside)) rest
      fun x hx => known x (by simp [Forest.tokens, hx])
    simpa [Forest.tokens, Forest.resolved, bindCalls] using e

/-! ## No stray factorials -/

/-- A factorial mark does not stand after an operand. -/
def Unmarked : List Token → Prop :=
  List.IsChain fun t x => (t.isOperand && x.isFactorial) = false

theorem bindFrom_head (held : Token) (ts : List Token) :
    ∃ t rest, bindFrom held ts = t :: rest ∧ (t = held ∨ t.isFactorial = false) := by
  fun_induction bindFrom held ts with
  | case1 held => exact ⟨held, [], rfl, .inl rfl⟩
  | case2 held x ts bound hb ih =>
    obtain ⟨t, rest, h, head⟩ := ih
    refine ⟨t, rest, h, .inr ?_⟩
    rcases head with rfl | other
    · unfold bind? at hb
      split at hb
      · cases hb; rfl
      · split at hb
        · split at hb
          · cases hb; rfl
          · cases hb
        · cases hb
    · exact other
  | case3 held x ts hb ih => exact ⟨held, _, rfl, .inl rfl⟩

theorem unmarked_bindFrom (held : Token) (ts : List Token) : Unmarked (bindFrom held ts) := by
  fun_induction bindFrom held ts with
  | case1 held => exact List.isChain_singleton _
  | case2 held x ts bound hb ih => exact ih
  | case3 held x ts hb ih =>
    obtain ⟨t, rest, h, head⟩ := bindFrom_head x ts
    rw [h] at ih ⊢
    refine List.IsChain.cons_cons ?_ ih
    rcases head with rfl | other
    · unfold bind? at hb
      split at hb
      · cases hb
      · rename_i marked
        rwa [Bool.and_comm, Bool.eq_false_iff]
    · rw [other, Bool.and_false]

theorem unmarked_insertProducts {ts : List Token} (h : Unmarked ts) :
    Unmarked (insertProducts ts) := by
  induction ts with
  | nil => exact List.isChain_nil
  | cons t ts ih =>
    cases ts with
    | nil =>
      rw [insertProducts_singleton]
      exact List.isChain_singleton t
    | cons x us =>
      obtain ⟨apart, tail⟩ := List.isChain_cons_cons.1 h
      obtain ⟨back, hb⟩ := insertProducts_head x us
      have ih := ih tail
      rw [insertProducts_cons, between]
      rw [hb] at ih ⊢
      split
      · rename_i quantities
        have other : x.isFactorial = false := by
          rw [Bool.and_eq_true] at quantities
          cases x with
          | leaf kind lexeme span =>
            cases kind with
            | number => rfl
            | _ => exact absurd quantities.2 Bool.false_ne_true
          | pointer level lexeme span => rfl
          | group family tokens span => rfl
        refine List.isChain_cons_cons.2 ⟨?_, List.isChain_cons_cons.2 ⟨?_, ih⟩⟩
        · exact Bool.and_false _
        · rw [other, Bool.and_false]
      · exact List.isChain_cons_cons.2 ⟨apart, ih⟩

theorem unmarked_separate (ts : List Token) : Unmarked (separate ts) := by
  cases ts with
  | nil => exact List.isChain_nil
  | cons t ts => exact unmarked_insertProducts (unmarked_bindFrom t ts)

theorem Terms.not_marked {ts : List Token} (terms : Terms ts) (mark : Word) :
    ¬ Unmarked (ts ++ [mark.token .factorial]) := by
  intro h
  induction terms with
  | one operand =>
    have apart := (List.isChain_cons_cons.1 h).1
    rw [operand.isOperand] at apart
    cases apart
  | more operand op w tail ih =>
    exact ih (List.isChain_cons.1 (List.isChain_cons.1 h).2).2

/-! ## Derivations, piece by piece -/

namespace Phrase

/-- The words belong to a phrase of the rank. -/
def Derives (r : Rank) (words : List Token) : Prop := ∃ d : Phrase r, d.tokens = words

end Phrase

open Phrase

/-- A phrase with more words after it is one again, if its last product is. -/
theorem sum_extend {last last' : Bool} {more : List Token}
    (product : ∀ p : Phrase (.product last), Derives (.product last') (p.tokens ++ more)) :
    ∀ s : Phrase (.sum last), Derives (.sum last') (s.tokens ++ more)
  | .product p => by
    obtain ⟨q, h⟩ := product p
    exact ⟨.product q, h⟩
  | .signed op known mark p => by
    obtain ⟨q, h⟩ := product p
    exact ⟨.signed op known mark q, by rw [tokens, h, tokens]; rfl⟩
  | .plus left op known mark right => by
    obtain ⟨q, h⟩ := product right
    exact ⟨.plus left op known mark q, by rw [tokens, h, tokens]; simp⟩

theorem power_raise {bare : Bool} (p : Phrase (.operand bare)) (mark : Word) {first last : Bool} :
    ∀ q : Phrase (.power first last),
      Derives (.power first bare) (q.tokens ++ mark.token (.operator .power) :: p.tokens)
  | .item operand => ⟨.raised operand mark (.item p), rfl⟩
  | .raised base mark' exponent => by
    obtain ⟨q, h⟩ := power_raise p mark exponent
    exact ⟨.raised base mark' q, by rw [tokens, h, tokens]; simp⟩

theorem product_raise {bare : Bool} (p : Phrase (.operand bare)) (mark : Word) {last : Bool}
    (q : Phrase (.product last)) :
    Derives (.product bare) (q.tokens ++ mark.token (.operator .power) :: p.tokens) := by
  cases q with
  | power q =>
    obtain ⟨q', h⟩ := power_raise p mark q
    exact ⟨.power q', h⟩
  | times left op known mark' right =>
    obtain ⟨q', h⟩ := power_raise p mark right
    exact ⟨.times left op known mark' q', by rw [tokens, h, tokens]; simp⟩
  | beside left right =>
    obtain ⟨q', h⟩ := power_raise p mark right
    exact ⟨.beside left q', by rw [tokens, h, tokens]; simp⟩

/-- One more operand with an operator before it. -/
theorem sum_step {last bare : Bool} (s : Phrase (.sum last)) (op : Operator) (mark : Word)
    (p : Phrase (.operand bare)) :
    Derives (.sum bare) (s.tokens ++ mark.token (.operator op) :: p.tokens) := by
  by_cases sign : op.isSign = true
  · exact ⟨.plus s op sign mark (.power (.item p)), rfl⟩
  · by_cases product : op.isProduct = true
    · exact sum_extend (fun q => ⟨.times q op product mark (.item p), rfl⟩) s
    · have power : op = .power := by cases op <;> first | rfl | contradiction
      subst power
      exact sum_extend (product_raise p mark) s

/-- One more operand without an operator. -/
theorem sum_beside (s : Phrase (.sum false)) (p : Phrase (.operand false)) :
    Derives (.sum false) (s.tokens ++ p.tokens) :=
  sum_extend (fun q => ⟨.beside q (.item p), rfl⟩) s

/-! ## The words of what is evaluated -/

theorem insertProducts_operator {op : Token} (other : op.isQuantity = false) (us : List Token) :
    insertProducts (op :: us) = op :: insertProducts us := by
  rw [insertProducts, other]
  rfl

/-- After an operand that multiplies nothing comes an operator with an operand. -/
theorem terms_insertProducts {b x : Token} {xs : List Token}
    (terms : Terms ([b] ++ insertProducts (x :: xs))) :
    ∃ (op : Operator) (mark : Word) (y : Token) (ys : List Token),
      x = mark.token (.operator op) ∧ xs = y :: ys ∧ Terms (insertProducts (y :: ys)) := by
  obtain ⟨back, hb⟩ := insertProducts_head x xs
  have terms' : Terms (b :: x :: back) := hb ▸ terms
  obtain ⟨op, mark, rfl⟩ := terms'.operator
  cases xs with
  | nil =>
    rw [insertProducts_singleton] at hb
    cases hb
    cases terms'.split.2
  | cons y ys =>
    refine ⟨op, mark, y, ys, rfl, rfl, ?_⟩
    have e := insertProducts_cons (mark.token (.operator op)) y ys
    rw [hb] at e
    injection e with _ e
    rw [show insertProducts (y :: ys) = back from e.symm]
    exact terms'.split.2

section

variable {bound : Nat}
  (inside : ∀ f : Forest, f.tokens.length < bound → (∀ t ∈ f.tokens, t.isWord = true) →
    Runs (combine f.resolved) → Derives .level f.tokens)

include inside

/-- A value is a number or a group of the grammar. -/
theorem quantity_of_spans {t : Token} {words : List Token} (spans : t.Spans words)
    (short : words.length ≤ bound) (known : ∀ w ∈ words, w.isWord = true)
    (quantity : t.isQuantity = true) (accepted : t.Accepted) : Derives .quantity words := by
  cases spans with
  | word plain word =>
    cases t with
    | leaf kind lexeme span =>
      cases kind with
      | number => exact ⟨.number ⟨lexeme, span⟩, rfl⟩
      | _ => cases quantity
    | pointer level lexeme span => cases quantity
    | group family tokens span => cases word
  | group family opening closing f =>
    simp only [List.length_cons, List.length_append, List.length_nil] at short
    obtain ⟨d, h⟩ := inside f (by omega) (fun w hw => known w (by simp [hw])) accepted.runs
    exact ⟨.bracket family opening closing d, by rw [tokens, h]⟩

theorem operand_of_spells {t : Token} {words : List Token} (spells : Spells t words)
    (short : words.length ≤ bound) (known : ∀ w ∈ words, w.isWord = true)
    (accepted : t.Accepted) : Derives (.operand (!t.isQuantity)) words := by
  induction spells with
  | @item t words spans =>
    cases quantity : t.isQuantity with
    | true =>
      obtain ⟨q, h⟩ := quantity_of_spans inside spans short known quantity accepted
      exact ⟨.quantity q, h⟩
    | false =>
      have operand := accepted.isOperand
      cases spans with
      | word plain word =>
        cases t with
        | leaf kind lexeme span =>
          cases kind with
          | identifier => exact ⟨.name ⟨lexeme, span⟩, rfl⟩
          | number => cases quantity
          | _ => cases operand
        | pointer level lexeme span => cases operand
        | group family tokens span => cases quantity
      | group family opening closing f => cases quantity
  | call name called quantity spans =>
    obtain ⟨k, works⟩ := accepted.runs
    rw [bodyValue_call _ name quantity, callValue,
      if_pos (Token.isOperand_of_isQuantity quantity)] at works
    obtain ⟨q, h⟩ := quantity_of_spans inside spans (by simp at short; omega)
      (fun w hw => known w (List.mem_cons_of_mem _ hw)) quantity ⟨k, works.of_bind.1⟩
    exact ⟨.call name _ called q, congrArg (name.token .identifier :: ·) h⟩
  | factorial spells mark ih =>
    obtain ⟨k, works⟩ := accepted.runs
    rw [bodyValue_factorial] at works
    obtain ⟨p, h⟩ := ih (by simp at short; omega) (fun w hw => known w (by simp [hw]))
      ⟨k, works.of_bind.1⟩
    exact ⟨.factorial p mark, congrArg (· ++ [mark.token .factorial]) h⟩

/-- A phrase and the terms after it are a phrase. The phrase ends with the first
of the terms. -/
theorem sum_of_terms (n : Nat) {b : Token} {bs : List Token} (size : bs.length ≤ n)
    {parts : List (List Token)} (all : SpellAll bs parts)
    (short : parts.flatten.length ≤ bound) (known : ∀ w ∈ parts.flatten, w.isWord = true)
    (terms : Terms (insertProducts (b :: bs))) (s : Phrase (.sum (!b.isQuantity))) :
    ∃ last, Derives (.sum last) (s.tokens ++ parts.flatten) := by
  induction n generalizing b bs parts with
  | zero =>
    obtain rfl := List.eq_nil_of_length_eq_zero (Nat.le_zero.1 size)
    cases all
    exact ⟨_, s, by simp⟩
  | succ n ih =>
    cases all with
    | nil => exact ⟨_, s, by simp⟩
    | @cons x words xs parts spells all =>
      rw [List.flatten_cons, List.length_append] at short
      have short_words : words.length ≤ bound := by omega
      have known_words : ∀ w ∈ words, w.isWord = true := fun w hw => known w (by simp [hw])
      have known_rest : ∀ w ∈ parts.flatten, w.isWord = true :=
        fun w hw => known w (by rw [List.flatten_cons]; exact List.mem_append_right _ hw)
      rw [insertProducts_cons, between] at terms
      split at terms
      · rename_i quantities
        rw [Bool.and_eq_true] at quantities
        have tail : Terms (insertProducts (x :: xs)) := terms.split.2
        obtain ⟨back, hb⟩ := insertProducts_head x xs
        have accepted : x.Accepted := (hb ▸ tail).head
        obtain ⟨p, hp⟩ := operand_of_spells inside spells short_words known_words accepted
        obtain ⟨s', hs⟩ : Derives (.sum (!x.isQuantity)) (s.tokens ++ words) := by
          revert s p
          rw [quantities.1, quantities.2]
          intro s p hp
          rw [← hp]
          exact sum_beside s p
        obtain ⟨last, d, hd⟩ := ih (Nat.le_of_succ_le_succ size) all (by omega) known_rest tail s'
        exact ⟨last, d, by rw [hd, hs, List.append_assoc]; rfl⟩
      · obtain ⟨op, mark, y, ys, rfl, rfl, tail⟩ := terms_insertProducts terms
        obtain rfl := spells.of_leaf
        cases all with
        | @cons y words' ys parts spells' all =>
          rw [List.flatten_cons, List.length_append] at short
          have short_words' : words'.length ≤ bound := by omega
          obtain ⟨back, hb⟩ := insertProducts_head y ys
          have accepted : y.Accepted := (hb ▸ tail).head
          obtain ⟨p, hp⟩ := operand_of_spells inside spells' short_words'
            (fun w hw => known_rest w (by simp [hw])) accepted
          obtain ⟨s', hs⟩ := sum_step s op mark p
          rw [List.length_cons] at size
          obtain ⟨last, d, hd⟩ := ih (by rw [List.length_cons] at size; omega) all (by omega)
            (fun w hw => known_rest w (by rw [List.flatten_cons]; exact List.mem_append_right _ hw))
            tail s'
          exact ⟨last, d, by rw [hd, hs, hp]; simp⟩

/-- Words that are evaluated without an assignment are a sum. -/
theorem sum_of_runnable {bs : List Token} {parts : List (List Token)} (all : SpellAll bs parts)
    (short : parts.flatten.length ≤ bound) (known : ∀ w ∈ parts.flatten, w.isWord = true)
    (unmarked : Unmarked (insertProducts bs)) (runnable : Runnable (insertProducts bs)) :
    Derives .level parts.flatten := by
  have of_terms : ∀ {bs : List Token} {parts : List (List Token)}, SpellAll bs parts →
      parts.flatten.length ≤ bound → (∀ w ∈ parts.flatten, w.isWord = true) →
      Terms (insertProducts bs) → ∀ front : List Token,
      (∀ {bare : Bool} (p : Phrase (.operand bare)), Derives (.sum bare) (front ++ p.tokens)) →
      Derives .level (front ++ parts.flatten) := by
    intro bs parts all short known terms front begins
    cases all with
    | nil => cases terms
    | @cons b words bs parts spells all =>
      rw [List.flatten_cons, List.length_append] at short
      obtain ⟨back, hb⟩ := insertProducts_head b bs
      have accepted : b.Accepted := (hb ▸ terms).head
      obtain ⟨p, hp⟩ := operand_of_spells inside spells (by omega)
        (fun w hw => known w (by simp [hw])) accepted
      obtain ⟨s, hs⟩ := begins p
      obtain ⟨last, d, hd⟩ := sum_of_terms inside _ (Nat.le_refl _) all (by omega)
        (fun w hw => known w (by rw [List.flatten_cons]; exact List.mem_append_right _ hw)) terms s
      exact ⟨.sum d, by rw [tokens, hd, hs, hp, List.append_assoc]; rfl⟩
  generalize h : insertProducts bs = ts at unmarked runnable
  cases runnable with
  | terms terms =>
    exact of_terms all short known (h ▸ terms) [] fun p => ⟨.product (.power (.item p)), rfl⟩
  | signed sign mark terms =>
    cases all with
    | nil => cases h
    | @cons b words bs parts spells all =>
      obtain ⟨back, hb⟩ := insertProducts_head b bs
      obtain rfl : b = mark.token (.operator _) := by
        rw [hb] at h
        injection h
      obtain rfl := spells.of_leaf
      rw [insertProducts_operator rfl] at h
      injection h with _ h
      rw [List.flatten_cons, List.length_append] at short
      exact of_terms all (by omega)
        (fun w hw => known w (by rw [List.flatten_cons]; exact List.mem_append_right _ hw))
        (h ▸ terms) [_] fun p => ⟨.signed _ sign mark (.power (.item p)), rfl⟩
  | marked terms mark => exact absurd unmarked (terms.not_marked mark)

end

theorem mem_insertProducts {ts : List Token} {t : Token} (h : t ∈ insertProducts ts) :
    t ∈ ts ∨ t = impliedTimes := by
  induction ts with
  | nil => exact .inl h
  | cons x ts ih =>
    rw [insertProducts] at h
    have tail : t ∈ insertProducts ts → t ∈ x :: ts ∨ t = impliedTimes :=
      fun h => (ih h).imp_left (List.mem_cons_of_mem _)
    split at h
    · rcases List.mem_cons.1 h with rfl | h
      · exact .inl List.mem_cons_self
      · rcases List.mem_cons.1 h with rfl | h
        · exact .inr rfl
        · exact tail h
    · rcases List.mem_cons.1 h with rfl | h
      · exact .inl List.mem_cons_self
      · exact tail h

theorem uncalled_of_spellAll {bs : List Token} {parts : List (List Token)}
    (all : SpellAll bs parts) : Uncalled (insertProducts bs) := by
  have spelled : Uncalled bs := by
    induction all with
    | nil => intro t ht; cases ht
    | cons spells _ ih =>
      intro t ht h
      rcases List.mem_cons.1 ht with rfl | ht
      · cases spells with
        | item spans =>
          cases spans with
          | word plain word =>
            cases t with
            | leaf kind lexeme span =>
              injection h with h
              subst h
              cases word
            | pointer level lexeme span => cases h
            | group family tokens span => cases h
          | group family opening closing inside => cases h
        | call name known quantity spans => cases h
        | factorial spells mark => cases h
      · exact ih t ht h
  intro t ht
  rcases mem_insertProducts ht with ht | rfl
  · exact spelled t ht
  · intro h
    cases h

/-- An assignment at the front of the separated items is one of the words. -/
theorem forest_of_assigned {f : Forest} (known : ∀ t ∈ f.tokens, t.isWord = true)
    {target mark : Word} {rest : List Token}
    (h : separate f.resolved = target.token .identifier :: mark.token .assign :: rest) :
    ∃ g : Forest, f.tokens = target.token .identifier :: mark.token .assign :: g.tokens ∧
      separate g.resolved = rest := by
  obtain ⟨parts, all, flat⟩ := spellAll_bindCalls f known
  have words : ∃ back, f.tokens =
      target.token .identifier :: mark.token .assign :: back := by
    have first : ∀ {bs : List Token} {parts : List (List Token)} {kind : Kind} {w : Word}
        {rest : List Token}, SpellAll bs parts → insertProducts bs = w.token kind :: rest →
        ∃ bs' parts', bs = w.token kind :: bs' ∧ parts = [w.token kind] :: parts' ∧
          SpellAll bs' parts' := by
      intro bs parts kind w rest all h
      cases all with
      | nil => cases h
      | @cons b words bs' parts' spells all =>
        obtain ⟨back, hb⟩ := insertProducts_head b bs'
        rw [hb] at h
        injection h with hb' _
        subst hb'
        exact ⟨bs', parts', rfl, by rw [spells.of_leaf], all⟩
    obtain ⟨bs', parts', e, rfl, all'⟩ := first all h
    rw [separate, e, insertProducts_operator rfl] at h
    injection h with _ h'
    obtain ⟨_, parts'', _, rfl, _⟩ := first all' h'
    exact ⟨parts''.flatten, flat.symm⟩
  obtain ⟨back, hback⟩ := words
  cases f with
  | nil => cases hback
  | group family opening closing inside rest => cases hback
  | word t plain f =>
    cases f with
    | nil => cases hback
    | group family opening closing inside rest => cases hback
    | word x plain' g =>
      injection hback with ht hback
      injection hback with hx hback
      subst ht hx
      refine ⟨g, rfl, ?_⟩
      have border : (mark.token .assign).isOperand = false := rfl
      have e := separate_append_operator border rfl [target.token .identifier] g.resolved
      have e' := e.symm.trans h
      rw [separate_singleton] at e'
      injection e' with _ e'
      injection e'

/-- The words that a forest was cut into are of the grammar if it is evaluated. -/
theorem exists_phrase {f : Forest} (known : ∀ t ∈ f.tokens, t.isWord = true)
    (runs : Runs (settle (separate f.resolved))) : Derives .level f.tokens := by
  -- By the number of words: there are fewer inside brackets and after an assignment.
  induction size : f.tokens.length using Nat.strong_induction_on generalizing f with
  | _ n ih =>
    have inside : ∀ g : Forest, g.tokens.length < n → (∀ t ∈ g.tokens, t.isWord = true) →
        Runs (combine g.resolved) → Derives .level g.tokens :=
      fun g short known runs => ih _ short known (runs_settle runs) rfl
    obtain ⟨parts, all, flat⟩ := spellAll_bindCalls f known
    rcases cases_of_settle (uncalled_of_spellAll all) runs with
      runnable | ⟨target, mark, rest, runs', h⟩
    · rw [← flat] at size known ⊢
      exact sum_of_runnable inside all (Nat.le_of_eq size) known (unmarked_separate _) runnable
    · obtain ⟨g, hf, rfl⟩ := forest_of_assigned known h
      rw [hf] at size known
      rw [List.length_cons, List.length_cons] at size
      obtain ⟨d, hd⟩ := ih g.tokens.length (by omega) (fun t ht => known t (by simp [ht])) runs' rfl
      exact ⟨.assigned target mark d, by rw [tokens, hd, hf]⟩

/-! ## Texts -/

theorem symbol_isWord {c : Char} {kind : Kind} (h : symbol? c = some kind) (span : Span) :
    (Token.leaf kind (String.ofList ([c].filter (!isGap ·))) span).isWord = true := by
  unfold symbol? at h
  split at h <;> cases h <;> rfl

/-- The kinds of words: those of symbols have one character. -/
theorem nextWord_cases (before : Option Char) (c : Char) (rest : List Char) :
    (∃ n, nextWord before c rest = (.number, n)) ∨
    (∃ n, nextWord before c rest = (.identifier, n)) ∨
    nextWord before c rest = (.illegal, 0) ∨
    ∃ kind, symbol? c = some kind ∧ nextWord before c rest = (kind, 0) := by
  unfold nextWord
  split
  · exact .inl ⟨_, rfl⟩
  · split
    · rename_i kind h
      exact .inr (.inr (.inr ⟨kind, h, rfl⟩))
    · split
      · exact .inl ⟨_, rfl⟩
      · split
        · exact .inr (.inl ⟨_, rfl⟩)
        · exact .inr (.inr (.inl rfl))

theorem scanFrom_isWord (position : Nat) (before : Option Char) (cs : List Char) :
    ∀ t ∈ scanFrom position before cs, t.isWord = true := by
  fun_induction scanFrom position before cs with
  | case1 => intro t ht; cases ht
  | case2 position before c rest gap ih => exact ih
  | case3 position before c rest gap word extent ih =>
    intro t ht
    rcases List.mem_cons.1 ht with rfl | ht
    · rcases nextWord_cases before c rest with ⟨n, h⟩ | ⟨n, h⟩ | h | ⟨kind, symbol, h⟩
      · simp only [extent, word, h]
        rfl
      · simp only [extent, word, h]
        rfl
      · simp only [extent, word, h]
        rfl
      · simp only [extent, word, h]
        exact symbol_isWord symbol _
    · exact ih t ht

theorem isWord_of_scan {code : String} {tokens : List Token} (h : scan code = .ok tokens) :
    ∀ t ∈ tokens, t.isWord = true := by
  rw [eq_scanFrom_of_scan h]
  exact scanFrom_isWord _ _ _

/-- Words that have a value are those of a derivation, and the value is that of the
derivation. -/
theorem exists_phrase_of_value {tokens : List Token} (known : ∀ t ∈ tokens, t.isWord = true)
    {reading depth : Nat} {env : Environment} {x : Float}
    (h : (calculateTokensWithin reading depth tokens env).result = .ok x) :
    ∃ d : Phrase .level, d.tokens = tokens ∧
      calculateTokensWithin reading depth tokens env = d.value.outcome env := by
  have derives : Derives .level tokens := by
    unfold calculateTokensWithin at h
    cases hr : resolve reading tokens with
    | error fault =>
      rw [hr] at h
      cases h
    | ok resolved =>
      obtain ⟨f, rfl, rfl⟩ := exists_forest_of_resolve known hr
      have step : (Except.ok f.resolved >>= combineWithin reading) =
          combineWithin reading f.resolved := rfl
      rw [hr, step] at h
      rcases combineWithin_yields reading f.resolved with deep | combined
      · rw [deep] at h
        cases h
      · rw [combined] at h
        have works : Works (evaluateWithin depth .round (combine f.resolved)) := by
          refine ⟨⟨env, []⟩, x,
            ((evaluateWithin depth .round (combine f.resolved)).outcome env).memory, ?_⟩
          exact Prod.ext h rfl
        exact exists_phrase known (runs_settle (runs_of_works works))
  obtain ⟨d, rfl⟩ := derives
  refine ⟨d, rfl, ?_⟩
  rcases calculateTokensWithin_of_deep d reading depth env with deep | same
  · rw [deep] at h
    cases h
  · exact same

/-- Nothing outside the grammar is accepted, and no word is skipped, at any depth: a text
that has a value within some limits is cut into the words of a derivation, and the value
and the effect are those of the derivation. -/
theorem scan_derivable_of_value {limits : Limits} {code : String} {env : Environment}
    {x : Float} (h : (calculateWithin limits code env).result = .ok x) :
    ∃ tokens, scan code = .ok tokens ∧
      ∃ d : Phrase .level, d.tokens = tokens ∧
        calculateWithin limits code env = d.value.outcome env := by
  cases hs : scan code with
  | error fault =>
    rw [calculateWithin, parseWithin, hs] at h
    cases h
  | ok tokens =>
    refine ⟨tokens, rfl, ?_⟩
    rw [calculateWithin_eq hs] at h ⊢
    exact exists_phrase_of_value (isWord_of_scan hs) h

theorem scan_derivable_assignment :
    ∃ tokens, scan "y = (x)" = .ok tokens ∧
      ∃ d : Phrase .level, d.tokens = tokens ∧
        calculate "y = (x)" (Environment.empty.set "x" 1.0) =
          d.value.outcome (Environment.empty.set "x" 1.0) := by
  have h : (calculate "y = (x)" (Environment.empty.set "x" 1.0)).result = .ok 1.0 := by
    decide +kernel
  exact scan_derivable_of_value h

end Calculator
