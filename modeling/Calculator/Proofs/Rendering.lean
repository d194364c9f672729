import Calculator.Proofs.Acceptance
import Calculator.Proofs.Legible
import Calculator.Proofs.Tidying

/-!
# Written trees can be read again

A tree is written with brackets around every group, so that its text has another
derivation than the text it was read from. The value is the same.

* `Restates`: a derivation whose words are those of a tree, with a given value.
* `spread_readable`: there is one for whatever a derivation is grouped into.
* `respaced_of_gapped`: the scanner finds its words in the text of the tree.
* `calculate_sourceText`: the text of a tree has the value of the tree.
-/

namespace Calculator

open Evaluation Phrase

/-! ## Derivations of trees -/

theorem partsAll_word (w : Word) (kind : Kind) (ts : List Token) :
    partsAll (w.token kind :: ts) = w.lexeme.toList :: partsAll ts := by
  simp [partsAll, Word.token, Token.parts]

theorem parts_group (family : Bracket) (ts : List Token) (span : Span) :
    (Token.group family ts span).parts =
      family.opener.toList :: (partsAll ts ++ [family.closer.toList]) := by
  cases family with
  | round =>
    have opener : Bracket.round.opener.toList = ['('] := by decide
    have closer : Bracket.round.closer.toList = [')'] := by decide
    rw [Token.parts, opener, closer]
  | absolute =>
    have opener : Bracket.absolute.opener.toList = ['['] := by decide
    have closer : Bracket.absolute.closer.toList = [']'] := by decide
    rw [Token.parts, opener, closer]

/-- The derivation has the words of the tokens, and a value but for places. -/
structure Restates {r : Rank} (d : Phrase r) (ts : List Token) (e : Evaluation Float)
    (bound : Nat) : Prop where
  words : d.tokens.map (·.lexeme.toList) = partsAll ts
  sound : Sound d.tokens
  like : Like d.value e
  height : d.height ≤ bound

/-- The tokens are those of a level. Each group takes three steps of depth at most:
the bracket, the product in it and what is in the product. -/
def Restated (ts : List Token) (e : Evaluation Float) : Prop :=
  ∃ d : Phrase .level, Restates d ts e (3 * reachAll ts + 2)

/-- The derivation begins with the given character, or with a bracket. -/
def Opens {r : Rank} (d : Phrase r) (first : Option Char) : Prop :=
  d.initial = first ∨ d.initial = some '('

/-- The token is an operand. If it is a group, its contents are a level. -/
structure Operable (t : Token) (e : Evaluation Float) (first : Option Char) : Prop where
  operand : ∃ (bare : Bool) (p : Phrase (.operand bare)),
    Restates p [t] e (3 * t.reach) ∧ Opens p first
  contents : ∀ ts span, t = .group .round ts span → Restated ts e

/-- The tokens of a phrase of a rank can be written and read again. -/
def Rank.Readable : Rank → List Token → Evaluation Float → Option Char → Prop
  | .quantity, ts, e, first =>
      (∃ q : Phrase .quantity, Restates q ts e (3 * (lump ts).reach) ∧ Opens q first) ∧
        Operable (lump ts) e first
  | .operand _, ts, e, first | .power _ _, ts, e, first => Operable (lump ts) e first
  | .product _, ts, e, first =>
      (∃ (last : Bool) (p : Phrase (.product last)), Restates p ts e (3 * reachAll ts + 1)) ∧
        Operable (lump ts) e first
  | .sum _, ts, e, _ =>
      (∃ (last : Bool) (s : Phrase (.sum last)), Restates s ts e (3 * reachAll ts + 1)) ∧
        ∀ us span, ts = [.group .round us span] → Restated us e
  | .level, ts, e, _ =>
      Restated ts e ∧ ∀ us span, ts = [.group .round us span] → Restated us e

theorem Opens.any {r : Rank} {d : Phrase r} {first : Option Char} (opens : Opens d first)
    {p : Char → Bool} (other : first.any p = false) (bracket : p '(' = false) :
    d.initial.any p = false := by
  rcases opens with same | same
  · rwa [same]
  · rw [same]
    exact bracket

namespace Restates

variable {ts : List Token} {e : Evaluation Float} {n m : Nat}

theorem mono {r : Rank} {d : Phrase r} (h : Restates d ts e n) (le : n ≤ m) : Restates d ts e m :=
  ⟨h.words, h.sound, h.like, Nat.le_trans h.height le⟩

theorem quantity {q : Phrase .quantity} (h : Restates q ts e n) :
    Restates (.quantity q) ts e n := ⟨h.words, h.sound, h.like, h.height⟩

theorem item {bare : Bool} {p : Phrase (.operand bare)} (h : Restates p ts e n) :
    Restates (.item p) ts e n := ⟨h.words, h.sound, h.like, h.height⟩

theorem power {first last : Bool} {p : Phrase (.power first last)} (h : Restates p ts e n) :
    Restates (.power p) ts e (n + 1) := ⟨h.words, h.sound, h.like, Nat.succ_le_succ h.height⟩

theorem product {last : Bool} {p : Phrase (.product last)} (h : Restates p ts e n) :
    Restates (.product p) ts e n := ⟨h.words, h.sound, h.like, h.height⟩

theorem sum {last : Bool} {s : Phrase (.sum last)} (h : Restates s ts e n) :
    Restates (.sum s) ts e n := ⟨h.words, h.sound, h.like, h.height⟩

theorem bracket (family : Bracket) (span : Span) {d : Phrase .level} (h : Restates d ts e n) :
    Restates (.bracket family .unknown .unknown d) [.group family ts span]
      (e >>= fun x => return family.apply x) (n + 1) where
  words := by
    rw [partsAll_singleton, parts_group, ← h.words]
    simp [tokens, Token.lexeme]
  sound := h.sound.bracket family .unknown .unknown
  like := h.like.bind fun _ => .refl _
  height := Nat.succ_le_succ h.height

end Restates

/-- A group that is written with round brackets. -/
theorem operable_grouping {ts : List Token} {e : Evaluation Float} (h : Restated ts e)
    (first : Option Char) : Operable (.grouping ts) e first where
  operand := by
    obtain ⟨d, restates⟩ := h
    have group := restates.bracket .round (spanning ts)
    rw [show (e >>= fun x => return Bracket.round.apply x) = e from bind_pure e] at group
    refine ⟨false, .quantity (.bracket .round .unknown .unknown d), ?_, .inr ?_⟩
    · exact ⟨group.words, group.sound, group.like, group.height⟩
    · show Bracket.round.opener.toList.head? = _
      decide
  contents us span same := by
    injection same with _ same
    rwa [← same]

theorem restated_arrange {ts : List Token} {e : Evaluation Float} {first : Option Char}
    (h : Rank.level.Readable (settle ts) e first) : Restated (arrange ts) e := by
  rcases settle_eq ts with same | grouped
  · rw [← same]
    exact h.1
  · exact h.2 _ _ grouped

/-! ## Groups in place of precedence -/

theorem operable_quantity {q : Phrase .quantity} {t : Token} {e : Evaluation Float}
    {first : Option Char} (h : Restates q [t] e (3 * t.reach)) (opens : Opens q first)
    (contents : ∀ ts span, t = .group .round ts span → Restated ts e) : Operable t e first :=
  ⟨⟨false, .quantity q, h.quantity, opens⟩, contents⟩

theorem readable_bracket (family : Bracket) (opening closing : Span) {inside : Phrase .level}
    (h : Restated (arrange inside.slots) inside.value) :
    Rank.quantity.Readable (bracket family opening closing inside).spread
      (bracket family opening closing inside).value
      (bracket family opening closing inside).initial := by
  obtain ⟨d, restates⟩ := h
  have group := restates.bracket family ⟨opening.start, closing.stop⟩
  refine ⟨⟨_, group, .inl rfl⟩, operable_quantity group (.inl rfl) ?_⟩
  intro us span same
  injection same with round same
  subst round same
  have value : (bracket .round opening closing inside).value = inside.value := bind_pure _
  rw [value]
  exact ⟨d, restates⟩

theorem quantity_head (q : Phrase .quantity) :
    ∀ t ∈ q.tokens.head?, t.shape ≠ .leaf .identifier := by
  intro t ht same
  cases q with
  | number w =>
    injection ht with ht
    subst ht
    cases same
  | bracket family opening closing inside =>
    injection ht with ht
    subst ht
    cases same

theorem operable_call {word : Word} {f : Function} (known : Function.called? word.lexeme = some f)
    (legible : word.Legible .identifier) {argument q : Phrase .quantity} {t : Token}
    (operand : t.isOperand = true) (h : Restates q [t] argument.value (3 * t.reach))
    (unsigned : q.initial.any isSignCharacter = false) (first : Option Char) :
    Operable (.grouping [word.token .function, t]) (call word f known argument).value first := by
  have call : Restates (.call word f known q) [word.token .function, t]
      (call word f known argument).value (3 * t.reach + 1) := by
    refine ⟨?_, .call legible h.sound unsigned (quantity_head q), ?_, Nat.succ_le_succ h.height⟩
    · rw [partsAll_word, ← h.words]
      rfl
    · exact h.like.bind fun x => .refl _
  refine operable_grouping ⟨_, call.item.power.product.sum.mono ?_⟩ first
  rw [reachAll_call word operand]

theorem operable_factorial {bare bare' : Bool} {mark : Word} (legible : mark.Legible .factorial)
    {operand : Phrase (.operand bare)} {p : Phrase (.operand bare')} {t : Token}
    (isOperand : t.isOperand = true) (h : Restates p [t] operand.value (3 * t.reach))
    (first : Option Char) :
    Operable (.grouping [t, mark.token .factorial]) (Phrase.factorial operand mark).value
      first := by
  have marked : Restates (.factorial p mark) [t, mark.token .factorial]
      (Phrase.factorial operand mark).value (3 * t.reach + 1) := by
    refine ⟨?_, h.sound.marked legible, ?_, Nat.succ_le_succ h.height⟩
    · have words := h.words
      rw [partsAll_singleton] at words
      rw [tokens, List.map_append, words, partsAll, partsAll_word]
      rfl
    · exact h.like.bind fun x => .refl _
  refine operable_grouping ⟨_, marked.item.power.product.sum.mono ?_⟩ first
  rw [reachAll_factorial mark isOperand]

/-- A mark between the words of two derivations. -/
theorem Restates.join {r r' r'' : Rank} {d : Phrase r} {d' : Phrase r'} {d'' : Phrase r''}
    {ts us : List Token} {e e' e'' : Evaluation Float} {n m k : Nat} {kind : Kind} {w : Word}
    (left : Restates d ts e n) (right : Restates d' us e' m) (legible : w.Legible kind)
    (mark : kind.isMark = true) (last : w.lexeme.toList.getLast?.any endsOperand = false)
    (words : d''.tokens = d.tokens ++ w.token kind :: d'.tokens) (like : Like d''.value e'')
    (height : d''.height ≤ k) : Restates d'' (ts ++ w.token kind :: us) e'' k where
  words := by
    rw [words, List.map_append, List.map_cons, left.words, right.words, partsAll_append,
      partsAll_word]
    rfl
  sound := by
    rw [words]
    exact left.sound.join legible mark last right.sound
  like := like
  height := height

theorem operable_raised {bare bare' : Bool} {mark : Word}
    (legible : mark.Legible (.operator .power)) {p : Phrase (.operand bare)}
    {p' : Phrase (.operand bare')} {t u : Token} {e e' : Evaluation Float}
    (operand : t.isOperand = true) (operand' : u.isOperand = true)
    (base : Restates p [t] e (3 * t.reach)) (exponent : Restates p' [u] e' (3 * u.reach))
    (first : Option Char) :
    Operable (.grouping ([t] ++ [mark.token (.operator .power), u]))
      (e >>= fun x => e' >>= fun y => return x.pow y) first := by
  have reach : reachAll ([t] ++ [mark.token (.operator .power), u]) = max t.reach u.reach := by
    rw [reachAll_step (.operand operand) _ _ operand', reachAll_singleton operand]
  have raised : Restates (.raised p mark (.item p')) ([t] ++ [mark.token (.operator .power), u])
      (e >>= fun x => e' >>= fun y => return x.pow y) (3 * max t.reach u.reach + 1) := by
    refine base.join exponent legible rfl legible.last_operator rfl ?_ ?_
    · exact base.like.bind fun x => exponent.like.bind fun y => .refl _
    · have := base.height
      have := exponent.height
      simp only [Phrase.height]
      omega
  refine operable_grouping ⟨_, raised.power.product.sum.mono ?_⟩ first
  rw [reach]

theorem lump_step {ts : List Token} (folded : Folded ts) (t u : Token) :
    lump (ts ++ [t, u]) = .grouping (ts ++ [t, u]) := by
  have := List.length_pos_of_ne_nil folded.ne_nil
  exact lump_of_length (by simp)

/-- One more factor of a product. -/
theorem readable_times {last last' bare : Bool} {op : Operator} (known : op.isProduct = true)
    {mark : Word} (legible : mark.Legible (.operator op)) {left : Phrase (.product last)}
    {p : Phrase (.operand bare)} {ts : List Token} {t : Token} {e e' : Evaluation Float}
    (folded : Folded ts) (operand : t.isOperand = true)
    (before : Restates left ts e (3 * reachAll ts + 1)) (after : Restates p [t] e' (3 * t.reach))
    (place : Option Int) (first : Option Char) :
    (Rank.product last').Readable (ts ++ [mark.token (.operator op), t])
      (e >>= fun x => e' >>= fun y => op.apply x y place) first := by
  have reach := reachAll_step folded op mark operand
  have times : Restates (.times left op known mark (.item p))
      (ts ++ [mark.token (.operator op), t])
      (e >>= fun x => e' >>= fun y => op.apply x y place)
      (3 * reachAll (ts ++ [mark.token (.operator op), t]) + 1) := by
    refine before.join after legible rfl legible.last_operator rfl ?_ ?_
    · exact before.like.bind fun x => after.like.bind fun y => Operator.apply_like op x y _ _
    · have := before.height
      have := after.height
      simp only [Phrase.height]
      omega
  refine ⟨⟨_, _, times⟩, ?_⟩
  rw [lump_step folded]
  exact operable_grouping ⟨_, times.product.sum.mono (Nat.le_succ _)⟩ first

/-- One more term of a sum. -/
theorem readable_plus {last last' last'' : Bool} {op : Operator} (known : op.isSign = true)
    {mark : Word} (legible : mark.Legible (.operator op)) {left : Phrase (.sum last)}
    {p : Phrase (.product last')} {ts : List Token} {t : Token} {e e' : Evaluation Float}
    (folded : Folded ts) (operand : t.isOperand = true)
    (before : Restates left ts e (3 * reachAll ts + 1))
    (after : Restates p [t] e' (3 * t.reach + 1)) (first : Option Char) :
    (Rank.sum last'').Readable (ts ++ [mark.token (.operator op), t])
      (e >>= fun x => e' >>= fun y => return op.result x y) first := by
  have reach := reachAll_step folded op mark operand
  refine ⟨⟨_, .plus left op known mark p, ?_⟩, fun us span same => ?_⟩
  · refine before.join after legible rfl legible.last_operator rfl ?_ ?_
    · exact before.like.bind fun x => after.like.bind fun y => .refl _
    · have := before.height
      have := after.height
      simp only [Phrase.height]
      omega
  · have size := congrArg List.length same
    simp at size

theorem readable_signed {last last' : Bool} {op : Operator} (known : op.isSign = true)
    {mark : Word} (legible : mark.Legible (.operator op)) {p : Phrase (.product last)}
    {t : Token} {e : Evaluation Float} (operand : t.isOperand = true)
    (after : Restates p [t] e (3 * t.reach + 1)) (other : p.initial.any isNumeral = false)
    (first : Option Char) :
    (Rank.sum last').Readable [mark.token (.operator op), t]
      (e >>= fun y => return op.result 0.0 y) first := by
  refine ⟨⟨_, .signed op known mark p, ?_, .signed legible after.sound other, ?_, ?_⟩,
    fun us span same => by cases same⟩
  · rw [partsAll_word, ← after.words]
    rfl
  · exact after.like.bind fun y => .refl _
  · rw [reachAll_signed op mark operand]
    exact after.height

/-- What a derivation is grouped into can be written and read again. -/
theorem spread_readable {r : Rank} (d : Phrase r) (legible : d.Legible) :
    r.Readable d.spread d.value d.initial := by
  -- A list that is one group loses that group when it is arranged, so the induction
  -- keeps track of the contents of such a group, too.
  induction d with
  | number w =>
    have number : Restates (.number w) [w.token .number] (Phrase.number w).value 0 :=
      ⟨rfl, .word legible (.inl rfl), .refl _, Nat.le_refl _⟩
    exact ⟨⟨_, number, .inl rfl⟩,
      operable_quantity number (.inl rfl) fun us span same => by cases same⟩
  | bracket family opening closing inside ih =>
    have inner := ih legible
    rw [← settle_slots] at inner
    exact readable_bracket family opening closing (restated_arrange inner)
  | quantity q ih =>
    have := (ih legible).2
    rwa [quantity_spread] at this
  | name w =>
    refine ⟨⟨true, .name w, ?_, .inl rfl⟩, fun us span same => by cases same⟩
    exact ⟨rfl, .word legible (.inr rfl), .refl _, Nat.le_refl _⟩
  | call word f known argument ih =>
    obtain ⟨legible, inner, unsigned⟩ := legible
    obtain ⟨t, h, quantity⟩ := quantity_slots argument
    obtain ⟨⟨q, restates, opens⟩, _⟩ := ih inner
    rw [quantity_spread, h] at restates
    rw [spread, slots, h]
    exact operable_call known legible (t.isOperand_of_isQuantity quantity) restates
      (opens.any unsigned (by decide)) _
  | factorial operand mark ih =>
    obtain ⟨inner, legible⟩ := legible
    obtain ⟨t, h, isOperand, _⟩ := operand_slots operand
    obtain ⟨_, p, restates, _⟩ := (ih inner).operand
    rw [operand_spread, h] at restates
    rw [spread, slots, h]
    exact operable_factorial legible isOperand restates _
  | item operand ih =>
    have := ih legible
    rwa [operand_spread] at this
  | raised base mark exponent ih ih' =>
    obtain ⟨left, legible, right⟩ := legible
    obtain ⟨t, h, isOperand, _⟩ := operand_slots base
    obtain ⟨_, p, restates, _⟩ := (ih left).operand
    obtain ⟨_, p', restates', _⟩ := (ih' right).operand
    rw [operand_spread, h] at restates
    rw [spread, h]
    exact operable_raised legible isOperand (lump_isOperand (power_spread_linked exponent))
      restates restates' _
  | power p ih =>
    have operable := ih legible
    obtain ⟨_, q, restates, _⟩ := operable.operand
    refine ⟨⟨_, _, restates.item.power.mono ?_⟩, operable⟩
    rw [spread, reachAll_singleton (lump_isOperand (power_spread_linked p))]
  | times left op known mark right ih ih' =>
    obtain ⟨before, legible, after⟩ := legible
    obtain ⟨⟨_, p, restates⟩, _⟩ := ih before
    obtain ⟨_, q, restates', _⟩ := (ih' after).operand
    exact readable_times known legible (product_folded left)
      (lump_isOperand (power_spread_linked right)) restates restates' _ _
  | beside left right ih ih' =>
    obtain ⟨before, after⟩ := legible
    obtain ⟨⟨_, p, restates⟩, _⟩ := ih before
    obtain ⟨_, q, restates', _⟩ := (ih' after).operand
    have star : Word.Legible ⟨"*", .unknown⟩ (.operator .times) :=
      legible_symbol (by decide : "*".toList = ['*']) rfl _
    exact readable_times rfl star (product_folded left)
      (lump_isOperand (power_spread_linked right)) restates restates' none _
  | product p ih =>
    obtain ⟨_, operable⟩ := ih legible
    obtain ⟨_, q, restates, _⟩ := operable.operand
    refine ⟨⟨_, _, restates.item.power.product.mono ?_⟩, fun us span same => ?_⟩
    · rw [spread, reachAll_singleton (lump_product_isOperand p)]
    · injection same with same
      exact operable.contents us span same
  | signed op known mark p ih =>
    obtain ⟨legible, inner, other⟩ := legible
    obtain ⟨_, q, restates, opens⟩ := (ih inner).2.operand
    exact readable_signed known legible (lump_product_isOperand p) restates.item.power
      (opens.any other (by decide)) _
  | plus left op known mark right ih ih' =>
    obtain ⟨before, legible, after⟩ := legible
    obtain ⟨⟨_, s, restates⟩, _⟩ := ih before
    obtain ⟨_, q, restates', _⟩ := (ih' after).2.operand
    exact readable_plus known legible (sum_folded left) (lump_product_isOperand right) restates
      restates'.item.power _
  | sum s ih =>
    obtain ⟨⟨_, s', restates⟩, contents⟩ := ih legible
    exact ⟨⟨_, restates.sum.mono (Nat.le_succ _)⟩, contents⟩
  | assigned target mark value ih =>
    obtain ⟨name, legible, inner⟩ := legible
    obtain ⟨⟨d, restates⟩, _⟩ := ih inner
    have target' :
        Restates (.name target) [target.token .identifier] (Phrase.name target).value 0 :=
      ⟨rfl, .word name (.inr rfl), .refl _, Nat.le_refl _⟩
    refine ⟨⟨.assigned target mark d, ?_⟩, fun us span same => by cases same⟩
    refine target'.join restates legible rfl legible.last_assign rfl ?_ ?_
    · exact restates.like.bind fun x => .refl _
    · have := restates.height
      rw [spread, reachAll_assigned, Phrase.height]
      omega

/-! ## The text of a tree -/

theorem loose_numerals {c : Char} {cs : List Char} (numerals : ∀ d ∈ c :: cs, isNumeral d = true) :
    Loose (c :: cs) (c :: cs) := by
  induction cs generalizing c with
  | nil => exact .one (numerals c List.mem_cons_self)
  | cons d cs ih =>
    have tail := ih fun x hx => numerals x (List.mem_cons_of_mem _ hx)
    exact .more (numerals c List.mem_cons_self) 0 tail

theorem Cut.spelled {before next : Option Char} {kind : Kind} {cs : List Char}
    (cut : Cut before next kind cs) : Spelled kind cs cs := by
  cases cut with
  | number numerals => exact .number (loose_numerals numerals)
  | signed isSign free numerals =>
    have gap : ([] : List Char).all isGap = true := rfl
    exact .signed isSign gap (loose_numerals numerals)
  | identifier letters => exact .word (by simp)
  | symbol known loose =>
    refine .word ?_
    rintro rfl
    exact symbol?_ne_number known
  | illegal gap unknown numeral letter => exact .word (by simp)

/-- Words with spaces between them are a text that has these words. -/
theorem respaced_of_gapped {ts : List Token} {text : List Char} {before next : Option Char}
    (gapped : Gapped (ts.map (·.lexeme.toList)) text) (cut : WellCut before ts next)
    (chain : ts.IsChain Separable) {previous : Option Kind}
    (apart : ∀ t ∈ ts.head?, ∀ kind gap, t.shape = .leaf kind → Separates previous kind gap) :
    Respaced previous ts text := by
  have spaces : ∀ n, (List.replicate n ' ').all isGap = true := by
    intro n
    simp [isGap]
  induction ts generalizing text before previous with
  | nil =>
    cases gapped with
    | nil n => exact .done (spaces n)
  | cons t ts ih =>
    obtain ⟨⟨kind, shape, first⟩, rest⟩ := cut
    obtain ⟨follows, linked⟩ := List.isChain_cons.1 chain
    rw [List.map_cons] at gapped
    cases t with
    | leaf kind' lexeme span =>
      injection shape with same
      subst same
      cases gapped with
      | cons n tail =>
        have others := ih tail rest linked fun x hx kind gap hk => follows x hx _ kind gap rfl hk
        exact .word (spaces n) (apart _ rfl _ _ rfl) first.spelled others
    | pointer level lexeme span => cases shape
    | group family tokens span => cases shape

/-- The text of a tree is cut into the words of a derivation of the tree. -/
theorem scan_sourceText {tree : List Token} {e : Evaluation Float} (h : Restated tree e) :
    ∃ (tokens : List Token) (d : Phrase .level), scan (sourceText tree) = .ok tokens ∧
      tokens.map Token.unplaced = d.tokens.map Token.unplaced ∧ Like d.value e ∧
      d.height ≤ 3 * reachAll tree + 2 := by
  obtain ⟨d, restates⟩ := h
  have cut := restates.sound.cut none none fun _ => rfl
  have solid : ∀ w ∈ partsAll tree, ∀ c ∈ w, Text.isBlank c = false := by
    intro w hw
    rw [← restates.words] at hw
    obtain ⟨t, ht, rfl⟩ := List.mem_map.1 hw
    exact restates.sound.solid t ht
  have gapped := gapped_sourceText tree solid
  rw [← restates.words] at gapped
  have respaced : Respaced none d.tokens (sourceText tree).toList :=
    respaced_of_gapped gapped cut restates.sound.chain fun _ _ _ _ _ => trivial
  obtain ⟨tokens, scanned, same⟩ := scan_respaced restates.sound.some respaced cut
  exact ⟨tokens, d, scanned, same, restates.like, restates.height⟩

theorem calculate_restated {tree : List Token} {e : Evaluation Float} (h : Restated tree e)
    (limits : Limits) (env : Environment) :
    (calculateWithin limits (sourceText tree) env).Like (e.outcome env) ∨
      min limits.reading limits.evaluating ≤ 3 * reachAll tree + 2 ∧
        (calculateWithin limits (sourceText tree) env).result.mapError Fault.cause =
          .error .tooDeep := by
  obtain ⟨tokens, d, scanned, same, like, height⟩ := scan_sourceText h
  rw [calculateWithin_eq scanned]
  have words := calculateTokensWithin_like same limits.reading limits.evaluating env
  have value : calculateTokensWithin limits.reading limits.evaluating d.tokens env =
        d.value.outcome env →
      (calculateTokensWithin limits.reading limits.evaluating tokens env).Like
        (e.outcome env) := by
    intro computed
    rw [computed] at words
    exact words.trans (like.outcome env)
  by_cases shallow : d.height < min limits.reading limits.evaluating
  · exact .inl (value (calculateTokensWithin_of_height (by omega) (by omega) env))
  · rcases calculateTokensWithin_of_deep d limits.reading limits.evaluating env with
      deep | computed
    · refine .inr ⟨by omega, ?_⟩
      rw [words.1, deep]
      rfl
    · exact .inl (value computed)

theorem Outcome.Like.eq_of_ok {o o' : Outcome} (h : o.Like o') {x : Float}
    (value : o'.result = .ok x) : o = o' := by
  obtain ⟨result, memory⟩ := h
  rw [value] at result
  have value' : o.result = .ok x := by
    cases ho : o.result with
    | error fault =>
      rw [ho] at result
      cases result
    | ok y =>
      rw [ho] at result
      injection result with same
      rw [same]
  cases o
  cases o'
  simp_all

/-- A text with a value can be written out and calculated again: the text of its
tree has the same outcome, unless it is too deep, for it has more brackets. -/
theorem calculate_sourceText {limits : Limits} {code : String} {env : Environment} {x : Float}
    (h : (calculateWithin limits code env).result = .ok x) :
    ∃ tree, parseWithin limits.reading code = .ok tree ∧
      (calculateWithin limits (sourceText tree) env = calculateWithin limits code env ∨
        min limits.reading limits.evaluating ≤ 3 * reachAll tree + 2 ∧
          (calculateWithin limits (sourceText tree) env).result.mapError Fault.cause =
            .error .tooDeep) := by
  cases scanned : scan code with
  | error fault =>
    rw [calculateWithin, parseWithin, scanned] at h
    cases h
  | ok tokens =>
    have words := calculateWithin_eq scanned limits env
    rw [words] at h ⊢
    obtain ⟨d, rfl, computed⟩ := exists_phrase_of_value (isWord_of_scan scanned) h
    have read : parseWithin limits.reading code = .ok (arrange d.slots) := by
      rw [parseWithin, scanned]
      rcases reading_yields d limits.reading with deep | read
      · unfold calculateTokensWithin at h
        rw [deep] at h
        cases h
      · exact read
    have readable := spread_readable d (legible_of_wellCut d (wellCut_scan scanned) fun _ => rfl)
    rw [← settle_slots] at readable
    refine ⟨_, read, ?_⟩
    rcases calculate_restated (restated_arrange readable) limits env with like | deep
    · rw [computed] at h ⊢
      exact .inl (like.eq_of_ok h)
    · exact .inr deep

theorem calculate_sourceText_assignment :
    ∃ tree, parse "y = 2 (x) * x - x" = .ok tree ∧
      calculate (sourceText tree) (Environment.empty.set "x" 1.0) =
        calculate "y = 2 (x) * x - x" (Environment.empty.set "x" 1.0) := by
  have h : (calculate "y = 2 (x) * x - x" (Environment.empty.set "x" 1.0)).result = .ok 1.0 := by
    decide +kernel
  have reach : (parse "y = 2 (x) * x - x").map reachAll = .ok 3 := by decide +kernel
  obtain ⟨tree, read, same | ⟨deep, _⟩⟩ := calculate_sourceText h
  · exact ⟨tree, read, same⟩
  · rw [parse, read] at reach
    injection reach with reach
    rw [reach] at deep
    exact absurd deep (by decide)

end Calculator
