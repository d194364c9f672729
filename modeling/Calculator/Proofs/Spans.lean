import Calculator.Session
import Calculator.Proofs.Leaves

/-!
# Where the tokens of a tree stand

The tokens of every list in a tree stand in the text one after the other, as its words
do, and what is below a group stands inside it. Only implied products stand nowhere.

* `Span.Encloses`: one stretch of the text is inside another. The extent of words in a
  row encloses that of any of them (`InOrder.encloses_extent`).
* `StandAll.inOrder`: the tokens of a list are in a row if its words are.
* `WellPlaced`: all that is known of the places in one list, which is so wherever a list
  stands for words in a row (`StandAll.wellPlaced`).
* `spans_of_parse`: every list in the tree of a text is well placed.
-/

namespace Calculator

/-! ## Stretches inside others -/

/-- The second stretch of the text is inside the first. -/
def Span.Encloses (s t : Span) : Prop := s.start ≤ t.start ∧ t.stop ≤ s.stop

/-- The extent of some words starts where one of them starts and ends where one ends. -/
theorem exists_ends {words : List Token} (some : words ≠ []) :
    (∃ w ∈ words, (extent words).start = w.span.start) ∧
      ∃ w ∈ words, (extent words).stop = w.span.stop := by
  refine ⟨?_, exists_extent_stop some⟩
  obtain ⟨t, rest, rfl⟩ := List.exists_cons_of_ne_nil some
  exact ⟨t, List.mem_cons_self, extent_start t rest⟩

namespace InOrder

variable {size : Nat} {words part : List Token}

theorem extent_encloses (order : InOrder size words) {w : Token} (mem : w ∈ words) :
    (extent words).Encloses w.span := by
  constructor
  · obtain ⟨first, rest, rfl⟩ := List.exists_cons_of_ne_nil (List.ne_nil_of_mem mem)
    rw [extent_start]
    rcases List.mem_cons.1 mem with rfl | later
    · exact Int.le_refl _
    · have apart := List.rel_of_pairwise_cons order.apart later
      have inside := (order.within first List.mem_cons_self).2.1
      omega
  · obtain ⟨front, last, rfl⟩ :=
      (List.eq_nil_or_concat' words).resolve_left (List.ne_nil_of_mem mem)
    rw [extent_append_stop front (List.cons_ne_nil last [])]
    rcases List.mem_append.1 mem with earlier | here
    · have apart := order.across earlier List.mem_cons_self
      have inside := (order.right.within last List.mem_cons_self).2.1
      have inside' := (order.left.within w earlier).2.1
      show w.span.stop ≤ last.span.stop
      omega
    · obtain rfl := List.mem_singleton.1 here
      exact Int.le_refl _

/-- The extent of words in a row encloses that of any of them. -/
theorem encloses_extent (order : InOrder size words) (sub : part ⊆ words) (some : part ≠ []) :
    (extent words).Encloses (extent part) := by
  obtain ⟨⟨first, hfirst, start⟩, last, hlast, stop⟩ := exists_ends some
  rw [Span.Encloses, start, stop]
  exact ⟨(order.extent_encloses (sub hfirst)).1, (order.extent_encloses (sub hlast)).2⟩

theorem extent_within (order : InOrder size words) (some : words ≠ []) :
    0 ≤ (extent words).start ∧ (extent words).start ≤ (extent words).stop ∧
      (extent words).stop < size := by
  obtain ⟨⟨first, hfirst, start⟩, last, hlast, stop⟩ := exists_ends some
  have inside := order.within first hfirst
  have inside' := order.within last hlast
  have after := (order.extent_encloses hlast).1
  omega

end InOrder

/-! ## One list -/

/-- How the tokens of a list in a tree are placed in a text of the given size with the
given words: only implied products stand nowhere; the others are in a row, each from the
start of a word to the end of a word, and a group encloses whatever below it stands in
the text, at any depth. -/
structure WellPlaced (size : Nat) (words ts : List Token) : Prop where
  unknown_iff : ∀ t ∈ ts, t.span = .unknown ↔ t = impliedTimes
  order : InOrder size (ts.filter (· ≠ impliedTimes))
  ends : ∀ t ∈ ts, t ≠ impliedTimes →
    (∃ w ∈ words, t.span.start = w.span.start) ∧ ∃ w ∈ words, t.span.stop = w.span.stop
  encloses : ∀ family us span, .group family us span ∈ ts →
    ∀ vs, Contains us vs → ∀ t ∈ vs, t ≠ impliedTimes → span.Encloses t.span

namespace StandAll

variable {size : Nat} {ts words part : List Token} {t : Token}

/-- A token of a list is placed where some of its words are. -/
theorem exists_extent (h : StandAll ts words) (mem : t ∈ ts) (written : t ≠ impliedTimes) :
    ∃ part, part <:+: words ∧ part ≠ [] ∧ t.span = extent part := by
  obtain ⟨part, within, stands⟩ := h.of_mem mem
  exact ⟨part, within, stands.ne_nil written, stands.span⟩

theorem ends (h : StandAll ts words) (mem : t ∈ ts) (written : t ≠ impliedTimes) :
    (∃ w ∈ words, t.span.start = w.span.start) ∧ ∃ w ∈ words, t.span.stop = w.span.stop := by
  obtain ⟨part, within, some, place⟩ := h.exists_extent mem written
  obtain ⟨⟨first, hfirst, start⟩, last, hlast, stop⟩ := exists_ends some
  rw [place]
  exact ⟨⟨first, within.subset hfirst, start⟩, last, within.subset hlast, stop⟩

theorem apart (h : StandAll ts words) (order : InOrder size words) :
    (ts.filter (· ≠ impliedTimes)).Pairwise fun t u => t.span.stop < u.span.start := by
  induction ts generalizing words with
  | nil => exact .nil
  | cons t ts ih =>
    cases h with
    | @cons _ _ p q first others =>
      have tail := ih others order.right
      by_cases written : t = impliedTimes
      · rwa [List.filter_cons_of_neg (by simp [written])]
      · rw [List.filter_cons_of_pos (by simp [written])]
        refine .cons (fun u hu => ?_) tail
        rw [List.mem_filter, decide_eq_true_iff] at hu
        obtain ⟨last, hlast, stop⟩ := ((single first).ends List.mem_cons_self written).2
        obtain ⟨next, hnext, start⟩ := (others.ends hu.1 hu.2).1
        rw [stop, start]
        exact order.across hlast hnext

/-- The tokens of a list are in a row if the words are that it stands for. -/
theorem inOrder (h : StandAll ts words) (order : InOrder size words) :
    InOrder size (ts.filter (· ≠ impliedTimes)) := by
  refine ⟨h.apart order, fun t ht => ?_⟩
  rw [List.mem_filter, decide_eq_true_iff] at ht
  obtain ⟨part, within, some, place⟩ := h.exists_extent ht.1 ht.2
  rw [place]
  exact (order.sublist within.sublist).extent_within some

theorem unknown_iff (h : StandAll ts words) (order : InOrder size words) (mem : t ∈ ts) :
    t.span = .unknown ↔ t = impliedTimes := by
  refine ⟨fun unknown => ?_, fun implied => implied ▸ rfl⟩
  by_contra written
  obtain ⟨part, within, some, place⟩ := h.exists_extent mem written
  have known := isKnown_extent (order.sublist within.sublist) some
  rw [← place, unknown] at known
  cases known

/-- Whatever is below a group stands for some of the words that the group stands for. -/
theorem encloses (h : StandAll ts words) (order : InOrder size words) {family : Bracket}
    {us vs : List Token} {span : Span} (mem : .group family us span ∈ ts)
    (below : Contains us vs) (mem' : t ∈ vs) (written : t ≠ impliedTimes) :
    span.Encloses t.span := by
  obtain ⟨whole, inWords, stands⟩ := h.of_mem mem
  obtain ⟨inside, inWhole, contents, fenced⟩ := stands.contents
  obtain ⟨deeper, inInside, stand, _⟩ := contents.contained fenced below
  obtain ⟨part, inDeeper, some, place⟩ := stand.exists_extent mem' written
  have sub : part ⊆ whole := (inDeeper.trans (inInside.trans inWhole)).subset
  have around : span = extent whole := stands.span
  rw [place, around]
  exact (order.sublist inWords.sublist).encloses_extent sub some

theorem wellPlaced (h : StandAll ts part) (within : part <:+: words)
    (order : InOrder size words) : WellPlaced size words ts := by
  have order' := order.sublist within.sublist
  refine ⟨fun t mem => h.unknown_iff order' mem, h.inOrder order', fun t mem written => ?_,
    fun family us span mem vs below t mem' => h.encloses order' mem below mem'⟩
  obtain ⟨⟨first, hfirst, start⟩, last, hlast, stop⟩ := h.ends mem written
  exact ⟨⟨first, within.subset hfirst, start⟩, last, within.subset hlast, stop⟩

end StandAll

/-! ## Texts -/

/-- The tree of a text extends from the first to the last of its words, and every list in
it is well placed. No word is without a place, so what stands nowhere was put there. -/
theorem spans_of_parse {limit : Nat} {code : String} {tree : List Token}
    (h : parseWithin limit code = .ok tree) :
    ∃ tokens, scan code = .ok tokens ∧ spanning tree = extent tokens ∧
      (∀ w ∈ tokens, w.span ≠ .unknown) ∧
      ∀ ts, Contains tree ts → WellPlaced code.length tokens ts := by
  obtain ⟨tokens, scanned, stand, fenced⟩ := standAll_of_parseWithin h
  have order := inOrder_of_scan scanned
  refine ⟨tokens, scanned, stand.spanning order, ?_, ?_⟩
  · exact fun w mem => of_decide_eq_true (order.isKnown mem)
  · intro ts inside
    obtain ⟨part, within, stand', _⟩ := stand.contained fenced inside
    exact stand'.wellPlaced within order

/-- A list with an implied product, in brackets with a factorial after them. -/
theorem spans_of_parse_implied :
    ∃ tree tokens, parse "4 ( 2 [x]) ! +3" = .ok tree ∧ scan "4 ( 2 [x]) ! +3" = .ok tokens ∧
      extent tokens = ⟨0, 14⟩ ∧
      WellPlaced 15 tokens [.leaf .number "2" ⟨4, 4⟩, impliedTimes,
        .group .absolute [.leaf .identifier "x" ⟨7, 7⟩] ⟨6, 8⟩] := by
  have h : parse "4 ( 2 [x]) ! +3" = .ok [
      .group .round [
        .leaf .number "4" ⟨0, 0⟩, impliedTimes,
        .group .round [
          .group .round [.leaf .number "2" ⟨4, 4⟩, impliedTimes,
            .group .absolute [.leaf .identifier "x" ⟨7, 7⟩] ⟨6, 8⟩] ⟨2, 9⟩,
          .leaf .factorial "!" ⟨11, 11⟩] ⟨2, 11⟩] ⟨0, 11⟩,
      .leaf (.operator .plus) "+" ⟨13, 13⟩, .leaf .number "3" ⟨14, 14⟩] := by
    decide +kernel
  obtain ⟨tokens, scanned, top, _, placed⟩ := spans_of_parse h
  refine ⟨_, tokens, h, scanned, top.symm, placed _ ?_⟩
  exact .contents (.contents (.contents .whole List.mem_cons_self)
    (List.mem_cons_of_mem _ (List.mem_cons_of_mem _ List.mem_cons_self))) List.mem_cons_self

end Calculator
