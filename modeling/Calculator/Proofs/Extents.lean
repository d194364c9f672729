import Calculator.Proofs.Words

/-!
# Where words stand in the text

The words of a text stand inside it, one after the other. What is put together of
words in a row extends from the first to the last of them.

* `InOrder`: words in a row, which those of a text are (`inOrder_of_scan`).
* `cut_of_scan`: how a word of a text is written.
* `extent`: the stretch from the first to the last of some words. The least span
  around two such stretches is the extent of both together (`join_extent`).
-/

namespace Calculator

/-! ## Words in a row -/

/-- Words that stand one after the other in a text of the given size. -/
structure InOrder (size : Nat) (words : List Token) : Prop where
  apart : words.Pairwise fun t u => t.span.stop < u.span.start
  within : ∀ t ∈ words, 0 ≤ t.span.start ∧ t.span.start ≤ t.span.stop ∧ t.span.stop < size

namespace InOrder

variable {size : Nat} {words front back : List Token}

theorem sublist (h : InOrder size words) (part : front.Sublist words) : InOrder size front :=
  ⟨h.apart.sublist part, fun t ht => h.within t (part.subset ht)⟩

theorem left (h : InOrder size (front ++ back)) : InOrder size front :=
  h.sublist (List.sublist_append_left front back)

theorem right (h : InOrder size (front ++ back)) : InOrder size back :=
  h.sublist (List.sublist_append_right front back)

theorem across (h : InOrder size (front ++ back)) {t u : Token} (ht : t ∈ front)
    (hu : u ∈ back) : t.span.stop < u.span.start :=
  (List.pairwise_append.1 h.apart).2.2 t ht u hu

theorem isKnown (h : InOrder size words) {t : Token} (ht : t ∈ words) :
    t.span.isKnown = true := by
  refine decide_eq_true fun unknown => ?_
  have start := (h.within t ht).1
  rw [unknown] at start
  revert start
  decide

end InOrder

theorem numeralRun_le (cs : List Char) : numeralRun cs ≤ cs.length := by
  induction cs with
  | nil => exact Nat.le_refl _
  | cons c cs ih =>
    rw [numeralRun, List.length_cons]
    split
    · omega
    · split
      · split <;> omega
      · omega

theorem nextWord_le (before : Option Char) (c : Char) (rest : List Char) :
    (nextWord before c rest).2 ≤ rest.length := by
  unfold nextWord
  split
  · obtain ⟨blanks, back, rfl, _, front, rest'⟩ := exists_takeWhile isGap rest
    have run := numeralRun_le back
    simp only [front, rest', List.length_append]
    omega
  · split
    · exact Nat.zero_le _
    · split
      · exact numeralRun_le rest
      · split
        · exact (List.takeWhile_prefix _).length_le
        · exact Nat.zero_le _

theorem scanFrom_within (position : Nat) (before : Option Char) (cs : List Char) :
    ∀ t ∈ scanFrom position before cs, (position : Int) ≤ t.span.start ∧
      t.span.start ≤ t.span.stop ∧ t.span.stop < position + cs.length := by
  fun_induction scanFrom position before cs with
  | case1 => simp
  | case2 position before c rest gap ih =>
    intro t ht
    have := ih t ht
    rw [List.length_cons]
    omega
  | case3 position before c rest gap word extent ih =>
    have short : word.2 ≤ rest.length := nextWord_le before c rest
    intro t ht
    rcases List.mem_cons.1 ht with rfl | ht
    · simp only [Token.span, List.length_cons]
      omega
    · have := ih t ht
      rw [List.length_drop] at this
      rw [List.length_cons]
      omega

theorem scanFrom_inOrder (position : Nat) (before : Option Char) (cs : List Char) :
    InOrder (position + cs.length) (scanFrom position before cs) := by
  refine ⟨?_, fun t ht => ?_⟩
  · fun_induction scanFrom position before cs with
    | case1 => exact .nil
    | case2 position before c rest gap ih => exact ih
    | case3 position before c rest gap word extent ih =>
      refine .cons (fun t ht => ?_) ih
      have after := (scanFrom_within _ _ _ t ht).1
      show (position : Int) + word.2 < _
      omega
  · have := scanFrom_within position before cs t ht
    omega

theorem inOrder_of_scan {code : String} {tokens : List Token} (h : scan code = .ok tokens) :
    InOrder code.length tokens := by
  have := scanFrom_inOrder 0 none code.toList
  rwa [Nat.zero_add, String.length_toList, ← eq_scanFrom_of_scan h] at this

theorem cut_of_mem {before next : Option Char} {tokens : List Token}
    (cut : WellCut before tokens next) {t : Token} (ht : t ∈ tokens) :
    ∃ before next kind, t.shape = .leaf kind ∧ Cut before next kind t.lexeme.toList := by
  induction tokens generalizing before with
  | nil => cases ht
  | cons u rest ih =>
    obtain ⟨⟨kind, shape, here⟩, tail⟩ := cut
    rcases List.mem_cons.1 ht with rfl | ht
    · exact ⟨_, _, kind, shape, here⟩
    · exact ih tail ht

/-- How a word of a text is written. -/
theorem cut_of_scan {code : String} {tokens : List Token} (h : scan code = .ok tokens)
    {t : Token} (ht : t ∈ tokens) :
    ∃ before next kind, t.shape = .leaf kind ∧ Cut before next kind t.lexeme.toList := by
  rw [eq_scanFrom_of_scan h] at ht
  exact cut_of_mem (wellCut_scanFrom _ _ _) ht

/-! ## Extents -/

/-- From the start of the first word to the end of the last one. -/
def extent : List Token → Span
  | [] => .unknown
  | [t] => t.span
  | t :: rest => ⟨t.span.start, (extent rest).stop⟩

theorem extent_cons (t : Token) {rest : List Token} (some : rest ≠ []) :
    extent (t :: rest) = ⟨t.span.start, (extent rest).stop⟩ := by
  obtain ⟨u, rest, rfl⟩ := List.exists_cons_of_ne_nil some
  rfl

theorem extent_start (t : Token) (rest : List Token) :
    (extent (t :: rest)).start = t.span.start := by
  cases rest <;> rfl

theorem extent_append_stop (front : List Token) {back : List Token} (some : back ≠ []) :
    (extent (front ++ back)).stop = (extent back).stop := by
  induction front with
  | nil => rfl
  | cons t front ih =>
    rw [List.cons_append, extent_cons t (by simp [some])]
    exact ih

theorem exists_extent_stop {words : List Token} (some : words ≠ []) :
    ∃ t ∈ words, (extent words).stop = t.span.stop := by
  rcases List.eq_nil_or_concat words with rfl | ⟨front, t, rfl⟩
  · exact absurd rfl some
  · rw [List.concat_eq_append]
    exact ⟨t, by simp, extent_append_stop front (List.cons_ne_nil t [])⟩

theorem isKnown_extent {size : Nat} {words : List Token} (order : InOrder size words)
    (some : words ≠ []) : (extent words).isKnown = true := by
  obtain ⟨t, rest, rfl⟩ := List.exists_cons_of_ne_nil some
  refine decide_eq_true fun unknown => ?_
  have start := (order.within t List.mem_cons_self).1
  rw [← extent_start t rest, unknown] at start
  revert start
  decide

/-- The least span around two stretches of words in a row. -/
theorem join_extent {size : Nat} {front back : List Token} (order : InOrder size (front ++ back))
    (some : front ≠ []) (some' : back ≠ []) :
    (extent front).join (extent back) = extent (front ++ back) := by
  obtain ⟨t, front, rfl⟩ := List.exists_cons_of_ne_nil some
  obtain ⟨u, back, rfl⟩ := List.exists_cons_of_ne_nil some'
  obtain ⟨t', ht', last⟩ := exists_extent_stop some
  obtain ⟨u', hu', last'⟩ := exists_extent_stop some'
  have first := order.across (t := t) (u := u) List.mem_cons_self List.mem_cons_self
  have later := order.across ht' hu'
  have inside := (order.left.within t List.mem_cons_self).2.1
  have inside' := (order.right.within u' hu').2.1
  have start : (extent (t :: front ++ u :: back)).start = t.span.start := extent_start _ _
  have stop := extent_append_stop (t :: front) some'
  have parts : ∀ s : Span, s = ⟨s.start, s.stop⟩ := fun _ => rfl
  rw [parts (extent (t :: front ++ u :: back)), start, stop, Span.join, extent_start,
    extent_start, last, last', Span.mk.injEq]
  omega

end Calculator
