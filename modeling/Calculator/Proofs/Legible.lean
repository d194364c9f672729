import Mathlib.Data.List.Chain
import Calculator.Proofs.Grammar
import Calculator.Proofs.Respacing

/-!
# Legible words

What the scanner needs to know about the words of a derivation, and words that it
gets back however they are spaced.

* `Phrase.Legible`: the words of a derivation are words of a text, which the ones
  that were cut out of a text are (`legible_of_wellCut`).
* `Sound`: words that a text can be cut into wherever a value may stand, and that
  never run together. They are put together of smaller ones (`Sound.join`).
-/

namespace Calculator

open Text (isLetter isBlank)

/-! ## Words in other places -/

/-- The last character of words in a row, or the one before them. -/
def lastOf : Option Char → List Token → Option Char
  | before, [] => before
  | _, t :: rest => lastOf t.lexeme.toList.getLast? rest

theorem firstOf_append (ts us : List Token) (next : Option Char) :
    firstOf (ts ++ us) next = firstOf ts (firstOf us next) := by
  cases ts with
  | nil => rfl
  | cons t ts => rfl

theorem firstOf_of_ne_nil {ts : List Token} (some : ts ≠ []) (next next' : Option Char) :
    firstOf ts next = firstOf ts next' := by
  cases ts with
  | nil => exact absurd rfl some
  | cons t ts => rfl

theorem lastOf_append (before : Option Char) (ts us : List Token) :
    lastOf before (ts ++ us) = lastOf (lastOf before ts) us := by
  induction ts generalizing before with
  | nil => rfl
  | cons t ts ih => exact ih _

theorem wellCut_append {before next : Option Char} {ts us : List Token} :
    WellCut before (ts ++ us) next ↔
      WellCut before ts (firstOf us next) ∧ WellCut (lastOf before ts) us next := by
  induction ts generalizing before with
  | nil => exact ⟨fun h => ⟨trivial, h⟩, fun h => h.2⟩
  | cons t ts ih =>
    rw [List.cons_append, WellCut, WellCut, lastOf, ih, firstOf_append]
    exact and_assoc.symm

/-- The words that an operand can end with. -/
def Kind.endsOperand : Kind → Bool
  | .number | .identifier | .closing _ | .factorial => true
  | _ => false

theorem symbol_endsOperand {c : Char} {kind : Kind} (known : symbol? c = some kind) :
    endsOperand c = kind.endsOperand := by
  obtain ⟨-, -, numeral, letter⟩ := symbol_facts known
  rw [endsOperand, numeral, letter]
  unfold symbol? at known
  split at known
  case h_15 => cases known
  all_goals
    cases known
    decide

theorem symbol_isSign {c : Char} {op : Operator} (known : symbol? c = some (.operator op)) :
    isSignCharacter c = op.isSign := by
  unfold symbol? at known
  split at known <;> cases known <;> decide

theorem symbol?_ne_identifier {c : Char} (h : symbol? c = some .identifier) : False := by
  unfold symbol? at h
  split at h <;> cases h

namespace Cut

variable {before next before' next' : Option Char} {kind : Kind} {cs : List Char}

/-- A word can stand anywhere unless it begins with a sign. -/
theorem move (cut : Cut before next kind cs)
    (number : cs.head?.any isSignCharacter = true → kind = .number →
      before'.any endsOperand = false)
    (operator : cs.head?.any isSignCharacter = true → kind ≠ .number →
      before'.any endsOperand = true ∨ next'.any isNumeral = false) :
    Cut before' next' kind cs := by
  cases cut with
  | number numerals => exact .number numerals
  | signed isSign free numerals => exact .signed isSign (number isSign rfl) numerals
  | identifier letters => exact .identifier letters
  | symbol known loose =>
    refine .symbol known fun sign => operator sign ?_
    rintro rfl
    exact symbol?_ne_number known
  | illegal gap unknown numeral letter => exact .illegal gap unknown numeral letter

theorem exists_symbol {kind : Kind} (cut : Cut before next kind cs) (number : kind ≠ .number)
    (identifier : kind ≠ .identifier) (illegal : kind ≠ .illegal) :
    ∃ c, cs = [c] ∧ symbol? c = some kind := by
  cases cut with
  | number numerals => exact absurd rfl number
  | signed isSign free numerals => exact absurd rfl number
  | identifier letters => exact absurd rfl identifier
  | symbol known loose => exact ⟨_, rfl, known⟩
  | illegal gap unknown numeral letter => exact absurd rfl illegal

theorem not_blank (cut : Cut before next kind cs) (illegal : kind ≠ .illegal) :
    ∀ c ∈ cs, isBlank c = false := by
  cases cut with
  | number numerals => exact fun c hc => (numeral_facts (numerals c hc)).2.1
  | signed isSign free numerals =>
    intro c hc
    rcases List.mem_cons.1 hc with rfl | hc
    · rw [isSignCharacter_iff] at isSign
      rcases isSign with rfl | rfl <;> decide
    · exact (numeral_facts (numerals c hc)).2.1
  | identifier letters => exact fun c hc => (letter_facts (letters c hc)).2.1
  | symbol known loose =>
    intro c hc
    rw [List.mem_singleton.1 hc]
    exact (symbol_facts known).2.1
  | illegal gap unknown numeral letter => exact absurd rfl illegal

/-- A number or a name ends like an operand. -/
theorem last_operand (cut : Cut before next kind cs)
    (operand : kind = .number ∨ kind = .identifier) :
    cs.getLast?.any endsOperand = true := by
  have of_all : ∀ {p : Char → Bool} {c : Char} {cs : List Char}, (∀ d ∈ c :: cs, p d = true) →
      (∀ d, p d = true → endsOperand d = true) →
      (c :: cs).getLast?.any endsOperand = true := by
    intro p c cs all ends
    rw [List.getLast?_eq_some_getLast (List.cons_ne_nil c cs), Option.any_some]
    exact ends _ (all _ (List.getLast_mem _))
  have numeral : ∀ d, isNumeral d = true → endsOperand d = true := by
    intro d h
    simp [endsOperand, h]
  cases cut with
  | number numerals => exact of_all numerals numeral
  | signed isSign free numerals =>
    rw [List.getLast?_cons_cons]
    exact of_all numerals numeral
  | identifier letters =>
    refine of_all letters fun d h => ?_
    simp [endsOperand, h]
  | symbol known loose =>
    rcases operand with rfl | rfl
    · exact (symbol?_ne_number known).elim
    · exact (symbol?_ne_identifier known).elim
  | illegal gap unknown numeral letter => rcases operand with h | h <;> cases h

theorem alone (cut : Cut before next kind cs) : Cut none none kind cs :=
  cut.move (fun _ _ => rfl) fun _ _ => .inr rfl

/-- After an operand a number has no sign. -/
theorem unsigned (cut : Cut before next .number cs) (ends : before.any endsOperand = true) :
    cs.head?.any isSignCharacter = false := by
  cases cut with
  | number numerals => exact (numeral_facts (numerals _ List.mem_cons_self)).2.2.2.1
  | signed isSign free numerals =>
    rw [ends] at free
    cases free
  | symbol known loose => exact (symbol?_ne_number known).elim

theorem identifier_unsigned (cut : Cut before next .identifier cs) :
    cs.head?.any isSignCharacter = false := by
  cases cut with
  | identifier letters => exact (letter_facts (letters _ List.mem_cons_self)).2.2.2.1
  | symbol known loose => exact (symbol?_ne_identifier known).elim

/-- A sign of its own is no part of a number. -/
theorem apart_sign (cut : Cut before next kind cs) (other : kind ≠ .number)
    (sign : cs.head?.any isSignCharacter = true) :
    before.any endsOperand = true ∨ next.any isNumeral = false := by
  cases cut with
  | number numerals => exact absurd rfl other
  | signed isSign free numerals => exact absurd rfl other
  | identifier letters =>
    have := (letter_facts (letters _ List.mem_cons_self)).2.2.2.1
    rw [List.head?_cons, Option.any_some, this] at sign
    cases sign
  | symbol known loose => exact loose sign
  | @illegal c gap unknown numeral letter =>
    rw [List.head?_cons, Option.any_some] at sign
    rw [isSignCharacter_iff] at sign
    rcases sign with rfl | rfl <;> cases unknown

end Cut

/-! ## The words of a derivation -/

/-- The word is one of a kind that can be cut out of a text. -/
def Word.Legible (w : Word) (kind : Kind) : Prop := Cut none none kind w.lexeme.toList

namespace Phrase

/-- The first character of a derivation. -/
def initial {r : Rank} (d : Phrase r) : Option Char := firstOf d.tokens none

/-- All words are legible, and none that stands alone is a part of a number. -/
def Legible {r : Rank} : Phrase r → Prop
  | number w => w.Legible .number
  | bracket _ _ _ inside => inside.Legible
  | quantity q => q.Legible
  | name w => w.Legible .identifier
  | call word _ _ argument =>
      word.Legible .identifier ∧ argument.Legible ∧
        argument.initial.any isSignCharacter = false
  | factorial operand mark => operand.Legible ∧ mark.Legible .factorial
  | item operand => operand.Legible
  | raised base mark exponent => base.Legible ∧ mark.Legible (.operator .power) ∧ exponent.Legible
  | power p => p.Legible
  | times left op _ mark right => left.Legible ∧ mark.Legible (.operator op) ∧ right.Legible
  | beside left right => left.Legible ∧ right.Legible
  | product p => p.Legible
  | signed op _ mark p =>
      mark.Legible (.operator op) ∧ p.Legible ∧ p.initial.any isNumeral = false
  | plus left op _ mark right => left.Legible ∧ mark.Legible (.operator op) ∧ right.Legible
  | sum s => s.Legible
  | assigned target mark value =>
      target.Legible .identifier ∧ mark.Legible .assign ∧ value.Legible

end Phrase

open Phrase

/-- A sign of its own may begin a phrase of the rank. -/
def Rank.leads : Rank → Bool
  | .sum _ | .level => true
  | _ => false

theorem tokens_ne_nil {r : Rank} (d : Phrase r) : d.tokens ≠ [] := by
  induction d with
  | number w => exact List.cons_ne_nil _ _
  | bracket family opening closing inside _ => exact List.cons_ne_nil _ _
  | quantity q ih => exact ih
  | name w => exact List.cons_ne_nil _ _
  | call word f known argument _ => exact List.cons_ne_nil _ _
  | factorial operand mark _ => simp [tokens]
  | item operand ih => exact ih
  | raised base mark exponent _ _ => simp [tokens]
  | power p ih => exact ih
  | times left op known mark right _ _ => simp [tokens]
  | beside left right ih _ => simp [tokens, ih]
  | product p ih => exact ih
  | signed op known mark p _ => exact List.cons_ne_nil _ _
  | plus left op known mark right _ _ => simp [tokens]
  | sum s ih => exact ih
  | assigned target mark value _ => exact List.cons_ne_nil _ _

theorem legible_symbol {lexeme : String} {kind : Kind} {c : Char} (text : lexeme.toList = [c])
    (known : symbol? c = some kind) (span : Span) : Word.Legible ⟨lexeme, span⟩ kind := by
  rw [Word.Legible, text]
  exact .symbol known fun _ => .inr rfl

theorem Word.Legible.last_operator {mark : Word} {op : Operator}
    (legible : mark.Legible (.operator op)) :
    mark.lexeme.toList.getLast?.any endsOperand = false := by
  obtain ⟨c, h, known⟩ := legible.exists_symbol (by simp) (by simp) (by simp)
  rw [h]
  exact symbol_endsOperand known

theorem Word.Legible.last_assign {mark : Word} (legible : mark.Legible .assign) :
    mark.lexeme.toList.getLast?.any endsOperand = false := by
  obtain ⟨c, h, known⟩ := legible.exists_symbol (by simp) (by simp) (by simp)
  rw [h]
  exact symbol_endsOperand known

theorem opener_unsigned (family : Bracket) :
    family.opener.toList.head?.any isSignCharacter = false := by
  cases family <;> decide

/-- The words of a derivation are legible if a text can be cut into them. -/
theorem legible_of_wellCut {r : Rank} (d : Phrase r) {before next : Option Char}
    (cut : WellCut before d.tokens next) (free : r.leads = true → before.any endsOperand = false) :
    d.Legible := by
  induction d generalizing before next with
  | number w => exact (wellCut_cons.1 cut).1.alone
  | bracket family opening closing inside ih =>
    refine ih (wellCut_append.1 (wellCut_cons.1 cut).2).1 fun _ => ?_
    cases family <;> decide
  | quantity q ih => exact ih cut fun h => by cases h
  | name w => exact (wellCut_cons.1 cut).1.alone
  | call word f known argument ih =>
    obtain ⟨first, rest⟩ := wellCut_cons.1 cut
    refine ⟨first.alone, ih rest (fun h => by cases h), ?_⟩
    have ends := first.last_operand (.inr rfl)
    cases argument with
    | number w => exact (wellCut_cons.1 rest).1.unsigned ends
    | bracket family opening closing inside => exact opener_unsigned family
  | factorial operand mark ih =>
    obtain ⟨left, right⟩ := wellCut_append.1 cut
    exact ⟨ih left (fun h => by cases h), (wellCut_cons.1 right).1.alone⟩
  | item operand ih => exact ih cut fun h => by cases h
  | raised base mark exponent ih ih' =>
    obtain ⟨left, right⟩ := wellCut_append.1 cut
    obtain ⟨middle, right⟩ := wellCut_cons.1 right
    exact ⟨ih left (fun h => by cases h), middle.alone, ih' right fun h => by cases h⟩
  | power p ih => exact ih cut fun h => by cases h
  | times left op known mark right ih ih' =>
    obtain ⟨left, right⟩ := wellCut_append.1 cut
    obtain ⟨middle, right⟩ := wellCut_cons.1 right
    exact ⟨ih left (fun h => by cases h), middle.alone, ih' right fun h => by cases h⟩
  | beside left right ih ih' =>
    obtain ⟨left, right⟩ := wellCut_append.1 cut
    exact ⟨ih left (fun h => by cases h), ih' right fun h => by cases h⟩
  | product p ih => exact ih cut fun h => by cases h
  | signed op known mark p ih =>
    obtain ⟨first, rest⟩ := wellCut_cons.1 cut
    refine ⟨first.alone, ih rest (fun h => by cases h), ?_⟩
    have sign : mark.lexeme.toList.head?.any isSignCharacter = true := by
      obtain ⟨c, h, symbol⟩ := first.exists_symbol (by simp) (by simp) (by simp)
      rw [h]
      exact (symbol_isSign symbol).trans known
    rcases first.apart_sign (by simp) sign with ends | other
    · rw [free rfl] at ends
      cases ends
    · rwa [firstOf_of_ne_nil (tokens_ne_nil p) next none] at other
  | plus left op known mark right ih ih' =>
    obtain ⟨left, right⟩ := wellCut_append.1 cut
    obtain ⟨middle, right⟩ := wellCut_cons.1 right
    exact ⟨ih left free, middle.alone, ih' right fun h => by cases h⟩
  | sum s ih => exact ih cut free
  | assigned target mark value ih =>
    obtain ⟨first, rest⟩ := wellCut_cons.1 cut
    obtain ⟨second, rest⟩ := wellCut_cons.1 rest
    exact ⟨first.alone, second.alone, ih rest fun _ => Word.Legible.last_assign second.alone⟩

/-! ## Words that come back -/

/-- Two words that do not run together, whatever gap is between them. -/
def Separable (t x : Token) : Prop :=
  ∀ kind kind' gap, t.shape = .leaf kind → x.shape = .leaf kind' →
    Separates (some kind) kind' gap

/-- A symbol, so that no word runs together with it. -/
def Kind.isMark : Kind → Bool
  | .number | .identifier | .illegal => false
  | _ => true

theorem separable_mark (t : Token) {kind : Kind} (mark : kind.isMark = true) (w : Word) :
    Separable t (w.token kind) := by
  intro kind' _ gap _ h
  injection h with h
  subst h
  cases kind <;> first | (cases mark; done) | (cases kind' <;> trivial)

theorem mark_separable {kind : Kind} (mark : kind.isMark = true) (w : Word) (t : Token) :
    Separable (w.token kind) t := by
  intro _ kind' gap h _
  injection h with h
  subst h
  cases kind <;> first | (cases mark; done) | (cases kind' <;> trivial)

theorem wellCut_word {before next : Option Char} {w : Word} {kind : Kind} {rest : List Token} :
    WellCut before (w.token kind :: rest) next ↔
      Cut before (firstOf rest next) kind w.lexeme.toList ∧
        WellCut w.lexeme.toList.getLast? rest next := wellCut_cons

/-- Words in a row that stand for a value: a text can be cut into them, also after
an operand if they do not begin with a sign, and they never run together. -/
structure Sound (ts : List Token) : Prop where
  some : ts ≠ []
  cut : ∀ before next, ((firstOf ts none).any isSignCharacter = true →
    before.any endsOperand = false) → WellCut before ts next
  ends : ∀ before, (lastOf before ts).any endsOperand = true
  chain : ts.IsChain Separable
  solid : ∀ t ∈ ts, ∀ c ∈ t.lexeme.toList, isBlank c = false

namespace Sound

variable {ts us : List Token}

theorem chain_mark {kind : Kind} (mark : kind.isMark = true) (w : Word)
    (left : ts.IsChain Separable) (right : us.IsChain Separable) :
    (ts ++ w.token kind :: us).IsChain Separable := by
  refine List.isChain_append.2 ⟨left, ?_, fun t _ x hx => ?_⟩
  · exact List.isChain_cons.2 ⟨fun t _ => mark_separable mark w t, right⟩
  · injection hx with hx
    subst hx
    exact separable_mark t mark w

theorem solid_append {w : Word} {kind : Kind} (legible : w.Legible kind) (known : kind ≠ .illegal)
    (left : ∀ t ∈ ts, ∀ c ∈ t.lexeme.toList, isBlank c = false)
    (right : ∀ t ∈ us, ∀ c ∈ t.lexeme.toList, isBlank c = false) :
    ∀ t ∈ ts ++ w.token kind :: us, ∀ c ∈ t.lexeme.toList, isBlank c = false := by
  intro t ht
  rcases List.mem_append.1 ht with ht | ht
  · exact left t ht
  · rcases List.mem_cons.1 ht with rfl | ht
    · exact legible.not_blank known
    · exact right t ht

theorem solid_cons {w : Word} {kind : Kind} (legible : w.Legible kind) (known : kind ≠ .illegal)
    (right : ∀ t ∈ us, ∀ c ∈ t.lexeme.toList, isBlank c = false) :
    ∀ t ∈ w.token kind :: us, ∀ c ∈ t.lexeme.toList, isBlank c = false :=
  solid_append legible known (List.forall_mem_nil _) right

/-- A number or a name. -/
theorem word {w : Word} {kind : Kind} (legible : w.Legible kind)
    (operand : kind = .number ∨ kind = .identifier) : Sound [w.token kind] where
  some := List.cons_ne_nil _ _
  cut before next free := by
    refine wellCut_word.2 ⟨Cut.move legible (fun sign _ => free sign) fun sign other => ?_, trivial⟩
    obtain rfl := operand.resolve_left other
    rw [legible.identifier_unsigned] at sign
    cases sign
  ends before := legible.last_operand operand
  chain := List.isChain_singleton _
  solid := solid_cons legible (by rcases operand with rfl | rfl <;> simp) (List.forall_mem_nil _)

/-- Words with a mark between them that no operand ends with. -/
theorem join {w : Word} {kind : Kind} (left : Sound ts) (legible : w.Legible kind)
    (mark : kind.isMark = true)
    (last : w.lexeme.toList.getLast?.any endsOperand = false) (right : Sound us) :
    Sound (ts ++ w.token kind :: us) where
  some := by simp
  cut before next free := by
    rw [firstOf_append] at free
    rw [wellCut_append, wellCut_word]
    refine ⟨left.cut _ _ fun sign => free ?_, ?_, right.cut _ _ fun _ => last⟩
    · rwa [firstOf_of_ne_nil left.some _ none]
    · refine Cut.move legible (fun _ number => ?_) fun _ _ => .inl (left.ends before)
      subst number
      cases mark
  ends before := by
    rw [lastOf_append]
    exact right.ends _
  chain := chain_mark mark w left.chain right.chain
  solid := by
    refine solid_append legible ?_ left.solid right.solid
    rintro rfl
    cases mark

/-- A sign in front of words that are no number. -/
theorem signed {w : Word} {op : Operator} (legible : w.Legible (.operator op))
    (right : Sound us) (other : (firstOf us none).any isNumeral = false) :
    Sound (w.token (.operator op) :: us) where
  some := List.cons_ne_nil _ _
  cut before next free := by
    rw [wellCut_word]
    refine ⟨?_, right.cut _ _ fun _ => legible.last_operator⟩
    refine Cut.move legible (fun _ number => by cases number) fun _ _ => .inr ?_
    rwa [firstOf_of_ne_nil right.some _ none]
  ends before := right.ends _
  chain := chain_mark rfl w List.isChain_nil right.chain
  solid := solid_cons legible (by simp) right.solid

/-- A factorial after an operand. -/
theorem marked {w : Word} (left : Sound ts) (legible : w.Legible .factorial) :
    Sound (ts ++ [w.token .factorial]) where
  some := by simp
  cut before next free := by
    rw [firstOf_append] at free
    rw [wellCut_append, wellCut_word]
    refine ⟨left.cut _ _ fun sign => free ?_, ?_, trivial⟩
    · rwa [firstOf_of_ne_nil left.some _ none]
    · exact Cut.move legible (fun _ number => by cases number) fun _ _ => .inl (left.ends before)
  ends before := by
    rw [lastOf_append]
    obtain ⟨c, h, known⟩ := legible.exists_symbol (by simp) (by simp) (by simp)
    show w.lexeme.toList.getLast?.any endsOperand = true
    rw [h]
    exact symbol_endsOperand known
  chain := chain_mark rfl w left.chain List.isChain_nil
  solid := solid_append legible (by simp) left.solid (List.forall_mem_nil _)

/-- A name in front of a number without a sign or of a bracket. -/
theorem call {w : Word} (legible : w.Legible .identifier) (right : Sound us)
    (unsigned : (firstOf us none).any isSignCharacter = false)
    (other : ∀ t ∈ us.head?, t.shape ≠ .leaf .identifier) :
    Sound (w.token .identifier :: us) where
  some := List.cons_ne_nil _ _
  cut before next free := by
    rw [wellCut_word]
    refine ⟨Cut.move legible (fun sign _ => free sign) fun sign _ => ?_,
      right.cut _ _ fun sign => ?_⟩
    · rw [legible.identifier_unsigned] at sign
      cases sign
    · rw [unsigned] at sign
      cases sign
  ends before := right.ends _
  chain := by
    refine List.isChain_cons.2 ⟨fun t ht kind kind' gap shape shape' => ?_, right.chain⟩
    injection shape with shape
    subst shape
    have apart : kind' ≠ .identifier := by
      rintro rfl
      exact other t ht shape'
    cases kind' <;> trivial
  solid := solid_cons legible (by simp) right.solid

theorem legible_opener (family : Bracket) (span : Span) :
    Word.Legible ⟨family.opener, span⟩ (.opening family) := by
  cases family
  · exact legible_symbol (by decide : "(".toList = ['(']) rfl span
  · exact legible_symbol (by decide : "[".toList = ['[']) rfl span

theorem legible_closer (family : Bracket) (span : Span) :
    Word.Legible ⟨family.closer, span⟩ (.closing family) := by
  cases family
  · exact legible_symbol (by decide : ")".toList = [')']) rfl span
  · exact legible_symbol (by decide : "]".toList = [']']) rfl span

/-- Words between brackets. -/
theorem bracket (family : Bracket) (opening closing : Span) (inside : Sound us) :
    Sound (.leaf (.opening family) family.opener opening ::
      (us ++ [.leaf (.closing family) family.closer closing])) where
  some := List.cons_ne_nil _ _
  cut before next free := by
    rw [wellCut_cons, wellCut_append, wellCut_cons]
    have unsigned : family.closer.toList.head?.any isSignCharacter = false := by
      cases family <;> decide
    refine ⟨?_, inside.cut _ _ fun _ => ?_, ?_, trivial⟩
    · refine (legible_opener family opening).move (fun _ number => by cases number) fun sign _ => ?_
      rw [opener_unsigned] at sign
      cases sign
    · cases family <;> decide
    · refine (legible_closer family closing).move (fun _ number => by cases number) fun sign _ => ?_
      rw [unsigned] at sign
      cases sign
  ends before := by
    rw [lastOf, lastOf_append, lastOf, lastOf, Token.lexeme]
    cases family <;> decide
  chain := by
    have mark : (Kind.opening family).isMark = true := rfl
    have mark' : (Kind.closing family).isMark = true := rfl
    have inner := chain_mark mark' ⟨family.closer, closing⟩ inside.chain List.isChain_nil
    exact chain_mark mark ⟨family.opener, opening⟩ List.isChain_nil inner
  solid := by
    refine solid_cons (legible_opener family opening) (by simp) ?_
    exact solid_append (legible_closer family closing) (by simp) inside.solid
      (List.forall_mem_nil _)

end Sound

end Calculator
