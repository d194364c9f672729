import Calculator.Grouping

/-!
# The passes of grouping, piece by piece

What the passes of `combine` do to a list that is put together of two.

* `separate_append`: two lists are separated one by one where nothing binds
  across their border; two values at it multiply.
* `chains_append`: no chain goes across a token that links nothing.
* `settle`: both passes over chains, without the exception for a chain that is
  the whole list; the exception saves one group (`settle_eq`).
-/

namespace Calculator

/-! ## Calls and factorials -/

theorem bindFrom_ne_nil (held : Token) (ts : List Token) : bindFrom held ts ≠ [] := by
  fun_induction bindFrom held ts with
  | case1 held => exact List.cons_ne_nil _ _
  | case2 held t rest bound hb ih => exact ih
  | case3 held t rest hb ih => exact List.cons_ne_nil _ _

theorem bindFrom_append {held t : Token} {ts us front : List Token}
    (h : bindFrom held ts = front ++ [t]) :
    bindFrom held (ts ++ us) = front ++ bindFrom t us := by
  fun_induction bindFrom held ts generalizing front with
  | case1 held =>
    have h : [] ++ [held] = front ++ [t] := h
    obtain ⟨rfl, e⟩ := List.append_inj' h rfl
    cases e
    rfl
  | case2 held x ts bound hb ih =>
    rw [List.cons_append, bindFrom, hb]
    exact ih h
  | case3 held x ts hb ih =>
    rw [List.cons_append, bindFrom, hb]
    cases front with
    | nil =>
      injection h with _ h
      exact absurd h (bindFrom_ne_nil x ts)
    | cons y front =>
      injection h with hy h
      simp only [hy, ih h, List.cons_append]

theorem bindCalls_append {t : Token} {ts us front : List Token}
    (h : bindCalls ts = front ++ [t]) : bindCalls (ts ++ us) = front ++ bindFrom t us := by
  cases ts with
  | nil =>
    have : front ++ [t] = [] := h.symm
    simp at this
  | cons held ts => exact bindFrom_append h

theorem bindFrom_cons_of_none {t x : Token} (us : List Token) (h : bind? t x = none) :
    bindFrom t (x :: us) = t :: bindCalls (x :: us) := by
  rw [bindFrom, h]
  rfl

/-- Only an operand or the name of a function binds what comes after it. -/
theorem bind?_eq_none {t : Token} (operand : t.isOperand = false) (x : Token) :
    bind? t x = none := by
  unfold bind?
  rw [operand, Bool.and_false, if_neg Bool.false_ne_true]
  split
  · cases operand
  · rfl

/-- A value binds nothing but a factorial. -/
theorem bind?_of_isQuantity {t x : Token} (quantity : t.isQuantity = true)
    (mark : x.isFactorial = false) : bind? t x = none := by
  unfold bind?
  rw [mark, Bool.false_and, if_neg Bool.false_ne_true]
  split
  · cases quantity
  · rfl

/-- Nothing binds a token that is neither a factorial nor a value. -/
theorem bind?_of_neither {t x : Token} (mark : x.isFactorial = false)
    (quantity : x.isQuantity = false) : bind? t x = none := by
  unfold bind?
  rw [mark, Bool.false_and, if_neg Bool.false_ne_true]
  split
  · rw [quantity, Bool.and_false, if_neg Bool.false_ne_true]
  · rfl

/-! ## Implied products -/

/-- What `insertProducts` puts between two neighbours. -/
def between (t x : Token) : List Token :=
  if t.isQuantity && x.isQuantity then [impliedTimes] else []

theorem insertProducts_cons (t x : Token) (ts : List Token) :
    insertProducts (t :: x :: ts) = t :: between t x ++ insertProducts (x :: ts) := by
  rw [insertProducts, between, List.head?_cons, Option.any_some]
  split <;> rfl

theorem insertProducts_singleton (t : Token) : insertProducts [t] = [t] := by
  simp [insertProducts]

theorem insertProducts_append (t x : Token) (ts us : List Token) :
    insertProducts (ts ++ t :: x :: us) =
      insertProducts (ts ++ [t]) ++ between t x ++ insertProducts (x :: us) := by
  induction ts with
  | nil =>
    rw [List.nil_append, List.nil_append, insertProducts_singleton]
    exact insertProducts_cons t x us
  | cons y ts ih =>
    cases ts with
    | nil =>
      have e := insertProducts_cons y t (x :: us)
      rw [List.nil_append] at ih
      simp only [List.cons_append, List.nil_append, e, ih, insertProducts_cons y t []]
      simp
    | cons z ts =>
      rw [List.cons_append] at ih
      simp only [List.cons_append, insertProducts_cons y z, ih]
      simp

theorem insertProducts_head (x : Token) (us : List Token) :
    ∃ back, insertProducts (x :: us) = x :: back := by
  rw [insertProducts]
  split
  · exact ⟨_, rfl⟩
  · exact ⟨_, rfl⟩

theorem insertProducts_last (ts : List Token) (t : Token) :
    ∃ front, insertProducts (ts ++ [t]) = front ++ [t] := by
  induction ts with
  | nil => exact ⟨[], insertProducts_singleton t⟩
  | cons y ts ih =>
    obtain ⟨front, ih⟩ := ih
    rw [List.cons_append, insertProducts, ih]
    split
    · exact ⟨y :: impliedTimes :: front, rfl⟩
    · exact ⟨y :: front, rfl⟩

/-! ## Separation -/

theorem not_isQuantity {t : Token} (operand : t.isOperand = false) : t.isQuantity = false := by
  cases h : t.isQuantity with
  | false => rfl
  | true => exact absurd (t.isOperand_of_isQuantity h) (by simp [operand])

/-- The border between two lists that do not bind: neighbouring values multiply. -/
theorem separate_append {ts us front back : List Token} {t x y : Token}
    (left : separate ts = front ++ [t]) (right : separate (y :: us) = x :: back)
    (apart : bind? t y = none) :
    separate (ts ++ y :: us) = separate ts ++ between t x ++ separate (y :: us) := by
  unfold separate at left right ⊢
  obtain ⟨front', hl⟩ : ∃ front', bindCalls ts = front' ++ [t] := by
    rcases List.eq_nil_or_concat (bindCalls ts) with h | ⟨front', t', h⟩
    · rw [h] at left
      simp [insertProducts] at left
    · rw [List.concat_eq_append] at h
      obtain ⟨_, hp⟩ := insertProducts_last front' t'
      rw [h, hp] at left
      obtain ⟨_, e⟩ := List.append_inj' left rfl
      cases e
      exact ⟨front', h⟩
  obtain ⟨back', hr⟩ : ∃ back', bindCalls (y :: us) = x :: back' := by
    cases h : bindCalls (y :: us) with
    | nil => exact absurd h (bindFrom_ne_nil y us)
    | cons x' back' =>
      obtain ⟨_, hp⟩ := insertProducts_head x' back'
      rw [h, hp] at right
      injection right with e
      exact ⟨back', by rw [e]⟩
  rw [bindCalls_append hl, bindFrom_cons_of_none us apart, hr, hl]
  exact insertProducts_append t x front' back'

theorem separate_cons {op : Token} (operand : op.isOperand = false) (us : List Token) :
    separate (op :: us) = op :: separate us := by
  unfold separate
  cases us with
  | nil => exact insertProducts_singleton op
  | cons u us =>
    have alone : bindCalls (op :: u :: us) = op :: bindCalls (u :: us) :=
      bindFrom_cons_of_none us (bind?_eq_none operand u)
    rw [alone, insertProducts, not_isQuantity operand]
    rfl

/-- A token that is neither an operand nor a factorial stands between two lists
that are separated one by one. -/
theorem separate_append_operator {op : Token} (operand : op.isOperand = false)
    (mark : op.isFactorial = false) (ts us : List Token) :
    separate (ts ++ op :: us) = separate ts ++ op :: separate us := by
  rcases List.eq_nil_or_concat (separate ts) with h | ⟨front, t, h⟩
  · cases ts with
    | nil => exact separate_cons operand us
    | cons x ts =>
      unfold separate at h
      rcases hb : bindCalls (x :: ts) with _ | ⟨x', ts'⟩
      · exact absurd hb (bindFrom_ne_nil x ts)
      · obtain ⟨back, hp⟩ := insertProducts_head x' ts'
        rw [hb, hp] at h
        cases h
  · rw [List.concat_eq_append] at h
    have apart := bind?_of_neither (t := t) mark (not_isQuantity operand)
    rw [separate_append h (separate_cons operand us) apart, separate_cons operand us, between,
      not_isQuantity operand, Bool.and_false, if_neg Bool.false_ne_true, List.append_nil]

theorem separate_singleton (t : Token) : separate [t] = [t] := insertProducts_singleton t

/-- A separated list of one token was one after binding, too. -/
theorem bindCalls_of_separate {ts : List Token} {t : Token} (h : separate ts = [t]) :
    bindCalls ts = [t] := by
  unfold separate at h
  rcases hb : bindCalls ts with _ | ⟨x, _ | ⟨y, rest⟩⟩
  · rw [hb] at h
    cases h
  · rw [hb, insertProducts_singleton] at h
    exact h
  · obtain ⟨back, hp⟩ := insertProducts_head y rest
    rw [hb, insertProducts_cons, hp] at h
    simp at h

/-! ## Chains -/

/-- Operands with links between them. -/
inductive Linked (links : Token → Bool) : List Token → Prop where
  | one {t : Token} (operand : t.isOperand = true) : Linked links [t]
  | more {t op : Token} {rest : List Token} (operand : t.isOperand = true)
      (link : links op = true) (tail : Linked links rest) : Linked links (t :: op :: rest)

theorem Linked.head {links : Token → Bool} {ts : List Token} (h : Linked links ts) :
    ts.head?.any Token.isOperand = true := by
  cases h with
  | one operand => exact operand
  | more operand _ _ => exact operand

theorem Linked.append {links : Token → Bool} {ts us : List Token} {op : Token}
    (left : Linked links ts) (link : links op = true) (right : Linked links us) :
    Linked links (ts ++ op :: us) := by
  induction left with
  | one operand => exact .more operand link right
  | more operand link' _ ih => exact .more operand link' ih

theorem chains_cons_of_linked {links : Token → Bool} {t op : Token} {rest chain : List Token}
    {others : List (List Token)}
    (linked : (t.isOperand && links op && rest.head?.any Token.isOperand) = true)
    (h : chains links rest = chain :: others) :
    chains links (t :: op :: rest) = (t :: op :: chain) :: others := by
  rw [chains, if_pos linked, h]

theorem eq_nil_of_chains {links : Token → Bool} {ts : List Token} (h : chains links ts = []) :
    ts = [] := by
  rw [← chains_flatten links ts, h]
  rfl

theorem chains_of_linked {links : Token → Bool} {ts : List Token} (h : Linked links ts) :
    chains links ts = [ts] := by
  induction h with
  | one _ => rfl
  | more operand link tail ih =>
    exact chains_cons_of_linked (by rw [operand, link, tail.head]; rfl) ih

theorem linked_of_mem_chains {links : Token → Bool} {ts c : List Token}
    (h : c ∈ chains links ts) : (∃ t, c = [t]) ∨ Linked links c := by
  fun_induction chains links ts generalizing c with
  | case1 => cases h
  | case2 t => exact .inl ⟨t, List.mem_singleton.1 h⟩
  | case3 t op rest linked none ih =>
    simp [eq_nil_of_chains none] at linked
  | case4 t op rest linked chain others some ih =>
    rw [some] at ih
    rcases List.mem_cons.1 h with rfl | h
    · simp only [Bool.and_eq_true] at linked
      refine .inr (.more linked.1.1 linked.1.2 ?_)
      rcases ih List.mem_cons_self with ⟨x, rfl⟩ | ih
      · have := chains_flatten links rest
        rw [some] at this
        rw [← this] at linked
        exact .one linked.2
      · exact ih
    · exact ih (List.mem_cons_of_mem _ h)
  | case5 t op rest apart ih =>
    rcases List.mem_cons.1 h with rfl | h
    · exact .inl ⟨t, rfl⟩
    · exact ih h

theorem linked_of_chains_cons {links : Token → Bool} {t op : Token} {rest chain : List Token}
    {others : List (List Token)}
    (linked : (t.isOperand && links op && rest.head?.any Token.isOperand) = true)
    (h : chains links rest = chain :: others) : Linked links (t :: op :: chain) := by
  have mem : t :: op :: chain ∈ chains links (t :: op :: rest) := by
    simp [chains_cons_of_linked linked h]
  rcases linked_of_mem_chains mem with ⟨x, single⟩ | whole
  · cases single
  · exact whole

/-- A token that is no operand and links nothing separates the chains around it. -/
theorem chains_append {links : Token → Bool} {op : Token} (operand : op.isOperand = false)
    (loose : links op = false) (ts us : List Token) :
    chains links (ts ++ op :: us) = chains links ts ++ [op] :: chains links us := by
  have alone : ∀ us, chains links (op :: us) = [op] :: chains links us := by
    intro us
    cases us with
    | nil => rfl
    | cons u us => simp [chains, operand]
  fun_induction chains links ts with
  | case1 => exact alone us
  | case2 t => simp [chains, loose, alone]
  | case3 t slot rest linked none ih =>
    simp [eq_nil_of_chains none] at linked
  | case4 t slot rest linked chain others some ih =>
    rw [some, List.cons_append] at ih
    have head : (rest ++ op :: us).head?.any Token.isOperand = rest.head?.any Token.isOperand := by
      cases rest with
      | nil => simp at linked
      | cons x rest => rfl
    rw [← head] at linked
    exact chains_cons_of_linked linked ih
  | case5 t slot rest apart ih =>
    have head : (rest ++ op :: us).head?.any Token.isOperand = rest.head?.any Token.isOperand := by
      cases rest with
      | nil => simp [operand]
      | cons x rest => rfl
    rw [List.cons_append, List.cons_append, chains, head, if_neg apart]
    rw [List.cons_append] at ih
    rw [ih]
    rfl

/-! ## The whole list -/

/-- The chains of a list wrapped, also one that is the whole list. -/
def wrapped (links : Token → Bool) (fold : List Token → List Token) (ts : List Token) :
    List Token :=
  (chains links ts).flatMap (wrap fold)

theorem wrapped_append {links : Token → Bool} {op : Token} (operand : op.isOperand = false)
    (loose : links op = false) (fold : List Token → List Token) (ts us : List Token) :
    wrapped links fold (ts ++ op :: us) =
      wrapped links fold ts ++ op :: wrapped links fold us := by
  rw [wrapped, chains_append operand loose, List.flatMap_append, List.flatMap_cons]
  rfl

theorem wrapped_eq (links : Token → Bool) {fold : List Token → List Token}
    (single : ∀ t, fold [t] = [t]) (ts : List Token) :
    wrapped links fold ts = groupChains links fold ts ∨
      ∃ t op rest, ts = t :: op :: rest ∧ Linked links ts ∧
        groupChains links fold ts = fold ts ∧ wrapped links fold ts = [.grouping (fold ts)] := by
  unfold wrapped groupChains
  rcases h : chains links ts with _ | ⟨c, _ | ⟨d, others⟩⟩
  · exact .inl rfl
  · have e : c = ts := by rw [← chains_flatten links ts, h]; simp
    subst e
    rcases linked_of_mem_chains (h ▸ List.mem_singleton_self c) with ⟨t, rfl⟩ | linked
    · refine .inl ?_
      simp [wrap, single]
    · cases linked with
      | one operand => exact .inl (by simp [wrap, single])
      | more operand link tail =>
        exact .inr ⟨_, _, _, rfl, .more operand link tail, rfl, by simp [wrap]⟩
  · exact .inl rfl

/-- A list in one token. -/
def lump : List Token → Token
  | [t] => t
  | ts => .grouping ts

theorem lump_of_length {ts : List Token} (h : 1 < ts.length) : lump ts = .grouping ts := by
  rcases ts with _ | ⟨t, _ | ⟨u, ts⟩⟩
  · simp at h
  · simp at h
  · rfl

theorem wrapped_products {ts : List Token} (h : Linked Token.isProduct ts) :
    wrapped Token.isProduct id ts = [lump ts] := by
  rw [wrapped, chains_of_linked h]
  cases h with
  | one _ => rfl
  | more _ _ _ => rfl

theorem nestPowers_cons {links : Token → Bool} {t op : Token} {rest : List Token}
    (h : Linked links rest) :
    nestPowers (t :: op :: rest) = [t, op, lump (nestPowers rest)] := by
  cases h with
  | one _ => rfl
  | more _ _ tail =>
    cases tail with
    | one _ => rfl
    | more _ _ _ => rfl

theorem wrapped_powers {ts : List Token} (h : Linked Token.isPower ts) :
    wrapped Token.isPower nestPowers ts = [lump (nestPowers ts)] := by
  rw [wrapped, chains_of_linked h]
  cases h with
  | one _ => rfl
  | more _ _ tail =>
    cases tail with
    | one _ => rfl
    | more _ _ _ => rfl

/-- Both passes over the chains of a list. -/
def arrange (ts : List Token) : List Token :=
  groupChains Token.isProduct id (groupChains Token.isPower nestPowers ts)

theorem combine_eq (ts : List Token) : combine ts = arrange (separate ts) := rfl

/-- Both passes, with every chain wrapped. -/
def settle (ts : List Token) : List Token :=
  wrapped Token.isProduct id (wrapped Token.isPower nestPowers ts)

theorem isProduct_of_isPower {t : Token} (h : t.isPower = true) : t.isProduct = false := by
  unfold Token.isPower at h
  split at h
  · rfl
  · cases h

/-- A token that no chain goes across separates the lists around it. -/
theorem settle_append {op : Token} (operand : op.isOperand = false) (product : op.isProduct = false)
    (power : op.isPower = false) (ts us : List Token) :
    settle (ts ++ op :: us) = settle ts ++ op :: settle us := by
  rw [settle, wrapped_append operand power, wrapped_append operand product]
  rfl

/-- Wrapping a chain that is the whole list makes one group of it. -/
theorem settle_eq (ts : List Token) :
    settle ts = arrange ts ∨ settle ts = [.grouping (arrange ts)] := by
  have products : ∀ us, wrapped Token.isProduct id us = groupChains Token.isProduct id us ∨
      wrapped Token.isProduct id us = [.grouping (groupChains Token.isProduct id us)] := by
    intro us
    have single : ∀ t : Token, id [t] = [t] := fun _ => rfl
    rcases wrapped_eq Token.isProduct single us with h | ⟨_, _, _, _, _, e, h⟩
    · exact .inl h
    · exact .inr (by rw [h, e])
  unfold settle arrange
  have single : ∀ t : Token, nestPowers [t] = [t] := fun _ => rfl
  rcases wrapped_eq Token.isPower single ts with h | ⟨t, op, rest, rfl, linked, e, h⟩
  · rw [h]
    exact products _
  · rw [h, e]
    cases linked with
    | more operand link tail =>
      have three : ∃ x, nestPowers (t :: op :: rest) = [t, op, x] := by
        cases tail with
        | one _ => exact ⟨_, rfl⟩
        | more _ _ _ => exact ⟨_, rfl⟩
      obtain ⟨x, three⟩ := three
      refine .inr ?_
      rw [three]
      simp [wrapped, groupChains, chains, wrap, isProduct_of_isPower link]

end Calculator
