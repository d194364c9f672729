import Calculator.Session
import Calculator.Proofs.Leaves

/-!
# The normal form of trees

Evaluation applies operators from left to right, so all precedence has to be in the
shape of the tree. The lists in it are in a normal form, whatever the text is.

* `Normal`: the normal form of one list of tokens.
* `Unlinked`: no operator of a kind stands between operands. Putting chains in one
  token each leaves a list so (`unlinked_bundled`).
* `Token.Tidy`: what the passes of grouping preserve of single tokens.
* `normal_combine`: grouping leaves a normal list.
* `normal_of_parse`: every list in the tree of a text is normal.
-/

namespace Calculator

/-! ## Normal lists -/

/-- A list that is folded from left to right without a mistake in precedence: a power
is alone with its operands, products and quotients are only among themselves, and so
are an operand with its factorial and a function with its argument. -/
structure Normal (ts : List Token) : Prop where
  plain : ∀ t ∈ ts, t.isPlain = true
  power : ∀ t op x, [t, op, x] <:+: ts → t.isOperand = true → op.isPower = true →
    x.isOperand = true → ts = [t, op, x]
  product : ∀ t op x, [t, op, x] <:+: ts → t.isOperand = true → op.isProduct = true →
    x.isOperand = true → Linked Token.isProduct ts
  factorial : ∀ t mark, [t, mark] <:+: ts → t.isOperand = true → mark.isFactorial = true →
    ts = [t, mark]
  call : ∀ name : Word, name.token .function ∈ ts →
    (∃ t, ts = [name.token .function, t] ∧ t.isQuantity = true) ∧
      (Function.called? name.lexeme).isSome = true

/-- All lists in the token are normal. -/
def Token.Normalized (t : Token) : Prop :=
  ∀ family us span, t = .group family us span → ∀ ts, Contains us ts → Normal ts

theorem normalized_group {family : Bracket} {us : List Token} {span : Span} (normal : Normal us)
    (inside : ∀ t ∈ us, t.Normalized) : (Token.group family us span).Normalized := by
  intro family' us' span' same ts h
  cases same
  rcases h.cases_outer with rfl | ⟨family, vs, place, mem, h⟩
  · exact normal
  · exact inside _ mem family vs place rfl ts h

theorem normalized_leaf (kind : Kind) (w : Word) : (w.token kind).Normalized := by
  intro family us span same
  cases same

/-- A token that the passes may leave in any list: no bracket, no pointer and no name
of a function in a call, with normal lists inside. -/
structure Token.Tidy (t : Token) : Prop where
  plain : t.isPlain = true
  uncalled : t.shape ≠ .leaf .function
  normalized : t.Normalized

theorem tidy_group {family : Bracket} {us : List Token} {span : Span} (normal : Normal us)
    (inside : ∀ t ∈ us, t.Normalized) : (Token.group family us span).Tidy :=
  ⟨rfl, by simp [Token.shape], normalized_group normal inside⟩

theorem tidy_implied : impliedTimes.Tidy :=
  ⟨rfl, by simp [impliedTimes, Token.shape], normalized_leaf _ ⟨"*", .unknown⟩⟩

/-! ## Operators between operands -/

/-- None of the operators stands between two operands. -/
def Unlinked (links : Token → Bool) : List Token → Prop
  | t :: op :: rest =>
      (t.isOperand && links op && rest.head?.any Token.isOperand) = false ∧
        Unlinked links (op :: rest)
  | _ => True

section

variable {links p : Token → Bool} {ts : List Token} {t op x : Token}

theorem Unlinked.tail (h : Unlinked links (t :: ts)) : Unlinked links ts := by
  cases ts with
  | nil => trivial
  | cons op rest => exact h.2

/-- Only whether the first token is an operand matters. -/
theorem Unlinked.head (h : Unlinked links (t :: ts)) (same : x.isOperand = t.isOperand) :
    Unlinked links (x :: ts) := by
  cases ts with
  | nil => trivial
  | cons op rest => exact ⟨by rw [same]; exact h.1, h.2⟩

theorem Unlinked.apart (h : Unlinked links ts) (triple : [t, op, x] <:+: ts)
    (operand : t.isOperand = true) (link : links op = true) : x.isOperand = false := by
  induction ts with
  | nil => simp at triple
  | cons y ts ih =>
    rcases List.infix_cons_iff.1 triple with front | later
    · obtain ⟨rest, same⟩ := front
      cases same
      have here := h.1
      simpa [operand, link] using here
    · exact ih h.tail later

theorem Token.not_isOperand_of_isPower (h : t.isPower = true) : t.isOperand = false := by
  obtain ⟨op, mark, rfl⟩ := operator_of_isPower t h
  rfl

theorem Token.not_isOperand_of_isProduct (h : t.isProduct = true) : t.isOperand = false := by
  obtain ⟨op, mark, rfl⟩ := operator_of_isProduct t h
  rfl

theorem Token.not_isOperand_of_isFactorial (h : t.isFactorial = true) : t.isOperand = false := by
  unfold isFactorial at h
  split at h
  · rfl
  · cases h

/-- What comes after an operand of a chain links it to the next. -/
theorem Linked.link_of_pair (loose : ∀ t, links t = true → t.isOperand = false)
    (h : Linked links ts) (pair : [t, op] <:+: ts) (operand : t.isOperand = true) :
    links op = true := by
  induction h with
  | one _ =>
    have := pair.length_le
    simp at this
  | @more y mark rest _ link tail ih =>
    rcases List.infix_cons_iff.1 pair with front | later
    · obtain ⟨back, same⟩ := front
      cases same
      exact link
    · rcases List.infix_cons_iff.1 later with front | later
      · obtain ⟨back, same⟩ := front
        injection same with same _
        rw [same, loose mark link] at operand
        cases operand
      · exact ih later

theorem pair_of_triple (triple : [t, op, x] <:+: ts) : [t, op] <:+: ts :=
  (List.prefix_append [t, op] [x]).isInfix.trans triple

end

/-! ## Lists of tidy tokens -/

section

variable {ts : List Token} (tidy : ∀ t ∈ ts, t.Tidy)

include tidy

/-- A chain of products is normal. -/
theorem normal_products (linked : Linked Token.isProduct ts) : Normal ts where
  plain := fun t ht => (tidy t ht).plain
  power := by
    intro t op x triple operand power _
    have product := linked.link_of_pair (fun _ => Token.not_isOperand_of_isProduct)
      (pair_of_triple triple) operand
    rw [isProduct_of_isPower power] at product
    cases product
  product := fun _ _ _ _ _ _ _ => linked
  factorial := by
    intro t mark pair operand factorial
    have product := linked.link_of_pair (fun _ => Token.not_isOperand_of_isProduct) pair operand
    obtain ⟨op, w, rfl⟩ := operator_of_isProduct mark product
    cases factorial
  call := fun name mem => absurd rfl (tidy _ mem).uncalled

/-- A power with its operands is normal. -/
theorem normal_power (linked : Linked Token.isPower ts) (short : ts.length ≤ 3) : Normal ts where
  plain := fun t ht => (tidy t ht).plain
  power := fun t op x triple _ _ _ =>
    (triple.eq_of_length (Nat.le_antisymm triple.length_le short)).symm
  product := by
    intro t op x triple operand product _
    have power := linked.link_of_pair (fun _ => Token.not_isOperand_of_isPower)
      (pair_of_triple triple) operand
    rw [isProduct_of_isPower power] at product
    cases product
  factorial := by
    intro t mark pair operand factorial
    have power := linked.link_of_pair (fun _ => Token.not_isOperand_of_isPower) pair operand
    rw [Token.not_isPower_of_isFactorial factorial] at power
    cases power
  call := fun name mem => absurd rfl (tidy _ mem).uncalled

/-- A list in which neither powers nor products nor factorials are left to be grouped
is normal. -/
theorem normal_apart (powers : Unlinked Token.isPower ts) (products : Unlinked Token.isProduct ts)
    (unmarked : Unmarked ts) : Normal ts where
  plain := fun t ht => (tidy t ht).plain
  power := by
    intro t op x triple operand power operand'
    rw [powers.apart triple operand power] at operand'
    cases operand'
  product := by
    intro t op x triple operand product operand'
    rw [products.apart triple operand product] at operand'
    cases operand'
  factorial := by
    intro t mark pair operand factorial
    obtain ⟨front, back, same⟩ := pair
    rw [← same, List.append_assoc] at unmarked
    have apart := (List.isChain_cons_cons.1 (List.isChain_append.1 unmarked).2.1).1
    simp [operand, factorial] at apart
  call := fun name mem => absurd rfl (tidy _ mem).uncalled

theorem tidy_lump (normal : Normal ts) : (lump ts).Tidy := by
  rcases ts with _ | ⟨t, _ | ⟨u, ts⟩⟩
  · exact tidy_group normal fun t ht => (tidy t ht).normalized
  · exact tidy t (List.mem_singleton_self t)
  · exact tidy_group normal fun t ht => (tidy t ht).normalized

end

/-! ## Calls and factorials -/

theorem not_triple {t u y op x : Token} : ¬ [y, op, x] <:+: [t, u] := by
  intro triple
  have := triple.length_le
  simp at this

theorem Word.token_injective {kind : Kind} {w w' : Word} (h : w.token kind = w'.token kind) :
    w = w' := by
  obtain ⟨lexeme, span⟩ := w
  obtain ⟨lexeme', span'⟩ := w'
  simp only [Word.token, Token.leaf.injEq] at h
  rw [h.2.1, h.2.2]

theorem normal_factorial {t mark : Token} (tidy : t.Tidy) (operand : t.isOperand = true)
    (factorial : mark.isFactorial = true) : Normal [t, mark] := by
  have other : mark.isPlain = true ∧ ∀ name : Word, name.token .function ≠ mark := by
    unfold Token.isFactorial at factorial
    split at factorial
    · exact ⟨rfl, by simp [Word.token]⟩
    · cases factorial
  constructor
  · simp [tidy.plain, other.1]
  · intro y op x triple
    exact absurd triple not_triple
  · intro y op x triple
    exact absurd triple not_triple
  · intro y x pair _ _
    exact (pair.eq_of_length rfl).symm
  · intro name mem
    rcases List.mem_cons.1 mem with rfl | mem
    · cases operand
    · exact absurd (List.mem_singleton.1 mem) (other.2 name)

theorem normal_call {name : Word} {t : Token} (tidy : t.Tidy) (quantity : t.isQuantity = true)
    (known : (Function.called? name.lexeme).isSome = true) :
    Normal [name.token .function, t] := by
  constructor
  · intro x hx
    rcases List.mem_cons.1 hx with rfl | hx
    · rfl
    · rw [List.mem_singleton.1 hx]
      exact tidy.plain
  · intro y op x triple
    exact absurd triple not_triple
  · intro y op x triple
    exact absurd triple not_triple
  · intro y x pair operand _
    have same := pair.eq_of_length rfl
    injection same with same _
    rw [same] at operand
    cases operand
  · intro name' mem
    rcases List.mem_cons.1 mem with same | mem
    · rw [Word.token_injective same]
      exact ⟨⟨t, rfl, quantity⟩, known⟩
    · rw [← List.mem_singleton.1 mem] at tidy
      exact absurd rfl tidy.uncalled

theorem tidy_bind? {held t bound : Token} (tidy : held.Tidy) (tidy' : t.Tidy)
    (h : bind? held t = some bound) : bound.Tidy := by
  unfold bind? at h
  split at h
  · rename_i marked
    rw [Bool.and_eq_true] at marked
    cases h
    refine tidy_group (normal_factorial tidy marked.2 marked.1) fun x hx => ?_
    rcases List.mem_cons.1 hx with rfl | hx
    · exact tidy.normalized
    · rw [List.mem_singleton.1 hx]
      exact tidy'.normalized
  · split at h
    · rename_i lexeme span _
      split at h
      · rename_i called
        rw [Bool.and_eq_true] at called
        cases h
        have normal : Normal [Word.token ⟨lexeme, span⟩ .function, t] :=
          normal_call tidy' called.2 called.1
        refine tidy_group normal fun x hx => ?_
        rcases List.mem_cons.1 hx with rfl | hx
        · exact normalized_leaf .function ⟨lexeme, span⟩
        · rw [List.mem_singleton.1 hx]
          exact tidy'.normalized
      · cases h
    · cases h

theorem tidy_bindFrom {held : Token} {ts : List Token} (tidy : held.Tidy)
    (others : ∀ t ∈ ts, t.Tidy) : ∀ t ∈ bindFrom held ts, t.Tidy := by
  fun_induction bindFrom held ts with
  | case1 held => simpa using tidy
  | case2 held x ts bound hb ih =>
    have first := others x List.mem_cons_self
    exact ih (tidy_bind? tidy first hb) fun t ht => others t (List.mem_cons_of_mem _ ht)
  | case3 held x ts hb ih =>
    have first := others x List.mem_cons_self
    have rest := ih first fun t ht => others t (List.mem_cons_of_mem _ ht)
    exact List.forall_mem_cons.2 ⟨tidy, rest⟩

theorem tidy_separate {ts : List Token} (tidy : ∀ t ∈ ts, t.Tidy) :
    ∀ t ∈ separate ts, t.Tidy := by
  intro t ht
  rcases mem_insertProducts ht with mem | rfl
  · cases ts with
    | nil => cases mem
    | cons held ts =>
      obtain ⟨first, others⟩ := List.forall_mem_cons.1 tidy
      exact tidy_bindFrom first others t mem
  · exact tidy_implied

/-! ## Chains -/

section

variable {links : Token → Bool} {bundle : List Token → Token}
  (single : ∀ t, bundle [t] = t) (operand : ∀ {c}, Linked links c → (bundle c).isOperand = true)

include single operand

/-- Where chains are in one token each, none of the operators stands between operands
if none did so before or all of them link. -/
theorem unlinked_bundled {p : Token → Bool} (loose : ∀ t, p t = true → t.isOperand = false)
    {ts : List Token} (h : Unlinked p ts ∨ ∀ t, p t = true → links t = true) :
    Unlinked p ((chains links ts).map bundle) := by
  fun_induction chains links ts with
  | case1 => trivial
  | case2 t => trivial
  | case3 t op rest linked none ih =>
    simp [eq_nil_of_chains none] at linked
  | case4 t op rest linked chain others some ih =>
    have whole := linked_of_chains_cons linked some
    simp only [Bool.and_eq_true] at linked
    have first := (head_bundled single operand rest).trans linked.2
    have after := ih (h.imp_left fun h => h.tail.tail)
    rw [some] at after first
    have operand' : (bundle chain).isOperand = true := first
    exact after.head (by rw [operand whole, operand'])
  | case5 t op rest apart ih =>
    have after := ih (h.imp_left Unlinked.tail)
    obtain ⟨x, others, same, kind, alone⟩ := bundled_cons single operand op rest
    rw [List.map_cons, single, same]
    rw [same] at after
    refine ⟨?_, after⟩
    cases link : p x with
    | false => simp
    | true =>
      -- The token after `t` is no operand, so it is a chain of its own.
      have none : op.isOperand = false := by rw [← kind, loose x link]
      obtain ⟨rfl, rfl⟩ := alone none
      rw [head_bundled single operand rest]
      rcases h with h | links'
      · rw [← link]
        exact h.1
      · simpa [links' x link] using apart

theorem unmarked_bundled {ts : List Token} (h : Unmarked ts) :
    Unmarked ((chains links ts).map bundle) := by
  fun_induction chains links ts with
  | case1 => exact List.isChain_nil
  | case2 t => exact List.isChain_singleton _
  | case3 t op rest linked none ih =>
    simp [eq_nil_of_chains none] at linked
  | case4 t op rest linked chain others some ih =>
    have whole := linked_of_chains_cons linked some
    simp only [Bool.and_eq_true] at linked
    have first := (head_bundled single operand rest).trans linked.2
    have after := ih (List.isChain_cons.1 (List.isChain_cons.1 h).2).2
    rw [some] at after first
    have operand' : (bundle chain).isOperand = true := first
    have here := List.isChain_cons.1 after
    rw [operand'] at here
    refine List.isChain_cons.2 ⟨?_, here.2⟩
    rw [operand whole]
    exact here.1
  | case5 t op rest apart ih =>
    obtain ⟨here, tail⟩ := List.isChain_cons_cons.1 h
    have after := ih tail
    obtain ⟨x, others, same, kind, alone⟩ := bundled_cons single operand op rest
    rw [List.map_cons, single, same]
    rw [same] at after
    refine List.isChain_cons_cons.2 ⟨?_, after⟩
    cases mark : x.isFactorial with
    | false => simp
    | true =>
      have none : op.isOperand = false := by
        rw [← kind, Token.not_isOperand_of_isFactorial mark]
      obtain ⟨rfl, _⟩ := alone none
      rwa [mark] at here

end

theorem tidy_bundled {links : Token → Bool} {bundle : List Token → Token}
    (single : ∀ t, bundle [t] = t)
    (folds : ∀ c, Linked links c → (∀ t ∈ c, t.Tidy) → (bundle c).Tidy) {ts : List Token}
    (tidy : ∀ t ∈ ts, t.Tidy) : ∀ t ∈ (chains links ts).map bundle, t.Tidy := by
  intro t ht
  obtain ⟨c, hc, rfl⟩ := List.mem_map.1 ht
  have part : ∀ x ∈ c, x.Tidy := by
    intro x hx
    apply tidy
    rw [← chains_flatten links ts]
    exact List.mem_flatten.2 ⟨c, hc, hx⟩
  rcases linked_of_mem_chains hc with ⟨x, rfl⟩ | linked
  · rw [single]
    exact part x (List.mem_singleton_self x)
  · exact folds c linked part

theorem nestPowers_length_le (ts : List Token) : (nestPowers ts).length ≤ 3 := by
  rcases ts with _ | ⟨t, _ | ⟨op, _ | ⟨x, _ | ⟨y, rest⟩⟩⟩⟩ <;> simp [nestPowers]

/-- A nested chain of powers is normal, and so are the chains inside it. -/
theorem normal_nestPowers {ts : List Token} (linked : Linked Token.isPower ts)
    (tidy : ∀ t ∈ ts, t.Tidy) :
    Normal (nestPowers ts) ∧ ∀ t ∈ nestPowers ts, t.Tidy := by
  have tidy' : ∀ t ∈ nestPowers ts, t.Tidy := by
    induction linked with
    | one operand => exact tidy
    | @more t op rest operand link tail ih =>
      have inner := ih fun x hx => tidy x (by simp [hx])
      have normal := normal_power inner (nestPowers_linked tail) (nestPowers_length_le rest)
      rw [nestPowers_cons tail]
      intro x hx
      simp only [List.mem_cons, List.not_mem_nil, or_false] at hx
      rcases hx with rfl | rfl | rfl
      · exact tidy x (by simp)
      · exact tidy x (by simp)
      · exact tidy_lump inner normal
  exact ⟨normal_power tidy' (nestPowers_linked linked) (nestPowers_length_le ts), tidy'⟩

/-! ## All passes -/

/-- A chain of powers that is the whole list stays open. -/
theorem arrange_powers {ts : List Token} (linked : Linked Token.isPower ts) :
    arrange ts = nestPowers ts := by
  have first : groupChains Token.isPower nestPowers ts = nestPowers ts := by
    rw [groupChains, chains_of_linked linked]
  rw [arrange, first]
  cases linked with
  | one operand => rfl
  | more operand link tail =>
    rw [nestPowers_cons tail]
    simp [groupChains, chains, wrap, isProduct_of_isPower link]

/-- The last pass makes a normal list of one in which powers and factorials are done. -/
theorem normal_groupProducts {ts : List Token} (tidy : ∀ t ∈ ts, t.Tidy)
    (powers : Unlinked Token.isPower ts) (unmarked : Unmarked ts) :
    Normal (groupChains Token.isProduct id ts) ∧
      ∀ t ∈ groupChains Token.isProduct id ts, t.Tidy := by
  have single : ∀ t : Token, lump [t] = t := fun _ => rfl
  have kept : ∀ t : Token, id [t] = [t] := fun _ => rfl
  rcases wrapped_eq Token.isProduct kept ts with same | ⟨_, _, _, _, linked, same, _⟩
  · rw [← same, wrapped_products_eq]
    have tidy' : ∀ t ∈ (chains Token.isProduct ts).map lump, t.Tidy :=
      tidy_bundled single (fun c linked part => tidy_lump part (normal_products part linked)) tidy
    refine ⟨normal_apart tidy' ?_ ?_ ?_, tidy'⟩
    · exact unlinked_bundled single lump_isOperand
        (fun _ => Token.not_isOperand_of_isPower) (.inl powers)
    · exact unlinked_bundled single lump_isOperand
        (fun _ => Token.not_isOperand_of_isProduct) (.inr fun _ link => link)
    · exact unmarked_bundled single lump_isOperand unmarked
  · rw [same]
    exact ⟨normal_products tidy linked, tidy⟩

/-- Both passes over chains make a normal list of tidy tokens. -/
theorem normal_arrange {ts : List Token} (tidy : ∀ t ∈ ts, t.Tidy) (unmarked : Unmarked ts) :
    Normal (arrange ts) ∧ ∀ t ∈ arrange ts, t.Tidy := by
  have single : ∀ t : Token, (lump ∘ nestPowers) [t] = t := fun _ => rfl
  have operand : ∀ {c}, Linked Token.isPower c → ((lump ∘ nestPowers) c).isOperand = true :=
    fun linked => lump_isOperand (nestPowers_linked linked)
  have kept : ∀ t : Token, nestPowers [t] = [t] := fun _ => rfl
  rcases wrapped_eq Token.isPower kept ts with same | ⟨_, _, _, _, linked, _, _⟩
  · rw [arrange, ← same, wrapped_powers_eq]
    apply normal_groupProducts
    · refine tidy_bundled single (fun c linked part => ?_) tidy
      obtain ⟨normal, inner⟩ := normal_nestPowers linked part
      exact tidy_lump inner normal
    · exact unlinked_bundled single operand
        (fun _ => Token.not_isOperand_of_isPower) (.inr fun _ link => link)
    · exact unmarked_bundled single operand unmarked
  · rw [arrange_powers linked]
    exact normal_nestPowers linked tidy

theorem normal_combine {ts : List Token} (tidy : ∀ t ∈ ts, t.Tidy) :
    Normal (combine ts) ∧ ∀ t ∈ combine ts, t.Tidy :=
  normal_arrange (tidy_separate tidy) (unmarked_separate ts)

/-! ## Texts -/

theorem tidy_resolved {f : Forest} (known : ∀ t ∈ f.tokens, t.isWord = true) :
    ∀ t ∈ f.resolved, t.Tidy := by
  induction f with
  | nil => simp [Forest.resolved]
  | word t plain rest ih =>
    obtain ⟨word, others⟩ := List.forall_mem_cons.1 known
    refine List.forall_mem_cons.2 ⟨⟨plain, ?_, ?_⟩, ih others⟩
    · intro function
      cases t with
      | leaf kind lexeme span =>
        injection function with function
        subst function
        cases word
      | pointer level lexeme span => cases plain
      | group family tokens span => cases word
    · intro family us span same
      subst same
      cases word
  | group family opening closing inside rest ih ih' =>
    obtain ⟨normal, tidy⟩ := normal_combine (ih fun t ht => known t (by simp [Forest.tokens, ht]))
    refine List.forall_mem_cons.2 ⟨tidy_group normal fun t ht => (tidy t ht).normalized, ?_⟩
    exact ih' fun t ht => known t (by simp [Forest.tokens, ht])

/-- Every list in the tree of a text is normal. -/
theorem normal_of_parse {limit : Nat} {code : String} {tree : List Token}
    (h : parseWithin limit code = .ok tree) :
    ∀ ts, Contains tree ts → Normal ts := by
  obtain ⟨f, _, rfl, known⟩ := exists_forest_of_parseWithin h
  obtain ⟨normal, tidy⟩ := normal_combine (tidy_resolved known)
  intro ts inside
  rcases inside.cases_outer with rfl | ⟨family, us, span, mem, inside⟩
  · exact normal
  · exact (tidy _ mem).normalized family us span rfl ts inside

theorem normal_of_parse_mixed :
    ∃ tree, parse "1+2*3^4!" = .ok tree ∧ ∀ ts, Contains tree ts → Normal ts := by
  have h : parse "1+2*3^4!" = .ok [
      .leaf .number "1" ⟨0, 0⟩, .leaf (.operator .plus) "+" ⟨1, 1⟩,
      .group .round [.leaf .number "2" ⟨2, 2⟩, .leaf (.operator .times) "*" ⟨3, 3⟩,
        .group .round [.leaf .number "3" ⟨4, 4⟩, .leaf (.operator .power) "^" ⟨5, 5⟩,
          .group .round [.leaf .number "4" ⟨6, 6⟩, .leaf .factorial "!" ⟨7, 7⟩]
            ⟨6, 7⟩] ⟨4, 7⟩] ⟨2, 7⟩] := by
    decide +kernel
  exact ⟨_, h, normal_of_parse h⟩

end Calculator
