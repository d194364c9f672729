import Calculator.Session
import Calculator.Proofs.Lexemes

/-!
# What tidying up erases

The spaces between words are not all that tidying up takes for a gap: it erases
blanks of every kind, also those that are words.

* `Edge`: two characters between which no blank is left. `exposed` tells whether a
  text has blanks between such characters.
* `Erases`: a function on texts that erases spaces, and other blanks exactly between
  the characters of an edge. `tidy` is put together of four (`erases_tidy`).
* `unspaced_sourceText_iff`: the text of a tree holds the words of the tree with its
  brackets exactly if none of them is exposed.
* `lexemes_of_sourceText`: without its spaces and brackets it is then the texts of
  the words, and otherwise these without some blank words.
-/

namespace Calculator

open Text (isBlank)

/-! ## Texts without spaces -/

def unspaced (cs : List Char) : List Char := cs.filter (· ≠ ' ')

theorem unspaced_space (cs : List Char) : unspaced (' ' :: cs) = unspaced cs := rfl

theorem unspaced_cons {c : Char} (other : c ≠ ' ') (cs : List Char) :
    unspaced (c :: cs) = c :: unspaced cs := List.filter_cons_of_pos (decide_eq_true other)

theorem isBlank_space : isBlank ' ' = true := by decide

/-- The first character after blanks is no space. -/
theorem head_unspaced (cs : List Char) :
    ((unspaced cs).dropWhile isBlank).head? = (cs.dropWhile isBlank).head? := by
  induction cs with
  | nil => rfl
  | cons c cs ih =>
    by_cases space : c = ' '
    · subst space
      rw [unspaced_space, ih, List.dropWhile_cons_of_pos isBlank_space]
    · rw [unspaced_cons space, List.dropWhile_cons, List.dropWhile_cons]
      split
      · exact ih
      · rfl

namespace Thins

theorem sublist {cs ds : List Char} (h : Thins cs ds) : ds.Sublist cs := by
  induction h with
  | nil => exact .slnil
  | keep c tail ih => exact ih.cons_cons c
  | drop blank tail ih => exact ih.cons _

theorem filter (p : Char → Bool) {cs ds : List Char} (h : Thins cs ds) :
    Thins (cs.filter p) (ds.filter p) := by
  induction h with
  | nil => exact .nil
  | keep c tail ih =>
    by_cases kept : p c = true
    · rw [List.filter_cons_of_pos kept, List.filter_cons_of_pos kept]
      exact .keep c ih
    · rw [List.filter_cons_of_neg kept, List.filter_cons_of_neg kept]
      exact ih
  | @drop c blank cs ds tail ih =>
    by_cases kept : p c = true
    · rw [List.filter_cons_of_pos kept]
      exact .drop blank ih
    · rwa [List.filter_cons_of_neg kept]

theorem unspace {cs ds : List Char} (h : Thins cs ds) : Thins (unspaced cs) (unspaced ds) :=
  h.filter _

theorem append {cs ds cs' ds' : List Char} (h : Thins cs ds) (h' : Thins cs' ds') :
    Thins (cs ++ cs') (ds ++ ds') := by
  induction h with
  | nil => exact h'
  | keep c tail ih => exact .keep c ih
  | drop blank tail ih => exact .drop blank ih

theorem refl (cs : List Char) : Thins cs cs := by
  induction cs with
  | nil => exact .nil
  | cons c cs ih => exact .keep c ih

/-- What is left in the end was left in between. -/
theorem antisymm {cs ds : List Char} (h : Thins cs ds) (h' : Thins ds cs) : ds = cs :=
  h.sublist.antisymm h'.sublist

theorem unspaced_ne {cs ds : List Char} (h : Thins cs ds) (c : Char) :
    unspaced ds ≠ c :: unspaced cs := by
  intro same
  have short := h.unspace.sublist.length_le
  have long := congrArg List.length same
  rw [List.length_cons] at long
  omega

/-- A blank that is missing is missing among the characters of any class with all blanks. -/
theorem eq_of_filter_eq {p : Char → Bool} {cs ds : List Char} (h : Thins cs ds)
    (blanks : ∀ c, isBlank c = true → p c = true) (same : ds.filter p = cs.filter p) :
    ds = cs := by
  induction h with
  | nil => rfl
  | @keep c cs ds tail ih =>
    refine congrArg (c :: ·) (ih ?_)
    by_cases kept : p c = true
    · rw [List.filter_cons_of_pos kept, List.filter_cons_of_pos kept] at same
      exact List.tail_eq_of_cons_eq same
    · rwa [List.filter_cons_of_neg kept, List.filter_cons_of_neg kept] at same
  | @drop c blank cs ds tail ih =>
    have short := (tail.filter p).sublist.length_le
    have long := congrArg List.length same
    rw [List.filter_cons_of_pos (blanks c blank), List.length_cons] at long
    omega

end Thins

/-! ## Edges -/

/-- What is before and what is after a place in a text, if it is such that no blank
is left there. -/
abbrev Edge := Option Char → Option Char → Bool

def Edge.or (e e' : Edge) : Edge := fun before after => e before after || e' before after

/-- Whether a text, which comes after the character `before`, has blanks at an edge. -/
def exposed (edge : Edge) (before : Option Char) : List Char → Bool
  | [] => false
  | c :: cs =>
      isBlank c && edge before (cs.dropWhile isBlank).head? || exposed edge (some c) cs

theorem exposed_or (e e' : Edge) (before : Option Char) (cs : List Char) :
    exposed (e.or e') before cs = (exposed e before cs || exposed e' before cs) := by
  induction cs generalizing before with
  | nil => rfl
  | cons c cs ih =>
    simp only [exposed, ih, Edge.or, Bool.and_or_distrib_left]
    ac_rfl

/-- A function that erases no blank but spaces unless it is at an edge. -/
structure Erases (edge : Edge) (f : List Char → List Char) : Prop where
  thins : ∀ cs, Thins cs (f cs)
  kept_iff : ∀ cs, unspaced (f cs) = unspaced cs ↔ exposed edge none (unspaced cs) = false

theorem Erases.comp {e e' : Edge} {f g : List Char → List Char} (hf : Erases e f)
    (hg : Erases e' g) : Erases (e.or e') (g ∘ f) where
  thins cs := (hf.thins cs).trans (hg.thins (f cs))
  kept_iff cs := by
    rw [exposed_or, Bool.or_eq_false_iff, ← hf.kept_iff, Function.comp_apply]
    constructor
    · intro same
      have second := (hg.thins (f cs)).unspace
      rw [same] at second
      have kept : unspaced (f cs) = unspaced cs := (hf.thins cs).unspace.antisymm second
      refine ⟨kept, ?_⟩
      rw [← kept, ← hg.kept_iff, same, kept]
    · rintro ⟨kept, kept'⟩
      rw [(hg.kept_iff (f cs)).2 (by rwa [kept]), kept]

/-! ## The four steps -/

def afterOpening : Edge := fun before _ => before.any isOpeningCharacter

def beforeAll (p : Char → Bool) : Edge := fun _ after => after.any p

def beforeArgument : Edge := fun before after => before.any Char.isAlpha && after.any (· = '(')

theorem erases_dropAfterOpening : Erases afterOpening (dropAfterOpening false) where
  thins cs := thins_dropAfterOpening false cs
  kept_iff cs := by
    suffices general : ∀ before : Option Char,
        unspaced (dropAfterOpening (before.any isOpeningCharacter) cs) = unspaced cs ↔
          exposed afterOpening before (unspaced cs) = false from general none
    induction cs with
    | nil => exact fun _ => ⟨fun _ => rfl, fun _ => rfl⟩
    | cons c cs ih =>
      intro before
      by_cases space : c = ' '
      · -- A space is dropped or kept, and the bracket before it still counts.
        subst space
        rw [unspaced_space, ← ih before, dropAfterOpening, isBlank_space, Bool.and_true]
        split
        · rename_i opening
          rw [opening]
        · rename_i other
          rw [unspaced_space, Bool.eq_false_iff.2 other]
          rfl
      · rw [unspaced_cons space, dropAfterOpening, exposed, afterOpening, Bool.and_comm]
        split
        · rename_i erased
          rw [erased, Bool.true_or]
          exact iff_of_false ((thins_dropAfterOpening true cs).unspaced_ne c) Bool.noConfusion
        · rename_i kept
          rw [unspaced_cons space, List.cons_inj_right, Bool.eq_false_iff.2 kept, Bool.false_or]
          exact ih (some c)

theorem head_dropBefore {p : Char → Bool} (solid : ∀ c, p c = true → isBlank c = false)
    (cs : List Char) :
    (dropBefore p cs).head?.any p = (cs.dropWhile isBlank).head?.any p := by
  induction cs with
  | nil => rfl
  | cons c cs ih =>
    simp only [dropBefore]
    by_cases blank : isBlank c = true
    · have other : p c = false := by
        rw [Bool.eq_false_iff]
        intro h
        rw [solid c h] at blank
        cases blank
      rw [List.dropWhile_cons_of_pos blank, ← ih, blank, Bool.true_and]
      split
      · rfl
      · rename_i none
        rw [List.head?_cons, Option.any_some, other, Bool.eq_false_iff.2 none]
    · rw [List.dropWhile_cons_of_neg blank, if_neg (by simp [blank])]
      rfl

theorem erases_dropBefore {p : Char → Bool} (solid : ∀ c, p c = true → isBlank c = false) :
    Erases (beforeAll p) (dropBefore p) where
  thins cs := thins_dropBefore p cs
  kept_iff cs := by
    suffices general : ∀ before : Option Char,
        unspaced (dropBefore p cs) = unspaced cs ↔
          exposed (beforeAll p) before (unspaced cs) = false from general none
    induction cs with
    | nil => exact fun _ => ⟨fun _ => rfl, fun _ => rfl⟩
    | cons c cs ih =>
      intro before
      have next := head_dropBefore solid cs
      simp only [dropBefore]
      by_cases space : c = ' '
      · subst space
        rw [unspaced_space, ← ih before]
        split
        · rfl
        · rw [unspaced_space]
      · rw [unspaced_cons space, exposed, beforeAll, head_unspaced, next]
        split
        · rename_i erased
          rw [erased, Bool.true_or]
          exact iff_of_false ((thins_dropBefore p cs).unspaced_ne c) Bool.noConfusion
        · rename_i kept
          rw [unspaced_cons space, List.cons_inj_right, Bool.eq_false_iff.2 kept, Bool.false_or]
          exact ih (some c)

theorem erases_dropBeforeArgument :
    Erases beforeArgument (dropBeforeArgument false) where
  thins cs := thins_dropBeforeArgument false cs
  kept_iff cs := by
    -- A letter is forgotten at a space that is kept, but then no bracket follows.
    suffices general : ∀ (before : Option Char) (letter : Bool),
        letter = before.any Char.isAlpha ∨
          letter = false ∧ (cs.dropWhile isBlank).head?.any (· = '(') = false →
        (unspaced (dropBeforeArgument letter cs) = unspaced cs ↔
          exposed beforeArgument before (unspaced cs) = false) from general none false (.inl rfl)
    induction cs with
    | nil => exact fun _ _ _ => ⟨fun _ => rfl, fun _ => rfl⟩
    | cons c cs ih =>
      intro before letter known
      by_cases space : c = ' '
      · subst space
        rw [List.dropWhile_cons_of_pos isBlank_space] at known
        rw [unspaced_space, dropBeforeArgument, isBlank_space, Bool.and_true]
        split
        · rename_i erased
          rw [Bool.and_eq_true] at erased
          rcases known with known | ⟨known, _⟩
          · exact ih before true (.inl (by rw [← known, erased.1]))
          · rw [known] at erased
            cases erased.1
        · rename_i kept
          rw [unspaced_space]
          refine ih before false ?_
          rcases known with known | ⟨_, known⟩
          · cases letter with
            | false => exact .inl known
            | true => exact .inr ⟨rfl, by simpa using kept⟩
          · exact .inr ⟨rfl, known⟩
      · rw [unspaced_cons space, dropBeforeArgument, exposed, beforeArgument, head_unspaced]
        split
        · rename_i erased
          rw [Bool.and_eq_true, Bool.and_eq_true] at erased
          obtain ⟨⟨rfl, blank⟩, bracket⟩ := erased
          have alpha : before.any Char.isAlpha = true := by
            rcases known with known | ⟨known, _⟩
            · exact known.symm
            · cases known
          rw [blank, alpha, bracket]
          exact iff_of_false ((thins_dropBeforeArgument true cs).unspaced_ne c) Bool.noConfusion
        · rename_i kept
          have clear : (isBlank c && (before.any Char.isAlpha &&
              (cs.dropWhile isBlank).head?.any (· = '('))) = false := by
            rcases known with known | ⟨_, known⟩
            · rw [known] at kept
              rw [Bool.eq_false_iff, ← Bool.and_assoc, Bool.and_comm (isBlank c)]
              exact kept
            · cases blank : isBlank c with
              | false => rfl
              | true =>
                rw [List.dropWhile_cons_of_pos blank] at known
                rw [known, Bool.and_false, Bool.and_false]
          rw [unspaced_cons space, List.cons_inj_right, clear, Bool.false_or]
          exact ih (some c) c.isAlpha (.inl rfl)

/-- Tidying up leaves no blank after an opening bracket, before a closing one, before
the mark of a factorial, and between a letter and a round bracket that opens. -/
def tidyEdge : Edge :=
  ((afterOpening.or (beforeAll isClosingCharacter)).or (beforeAll (· = '!'))).or beforeArgument

theorem erases_tidy : Erases tidyEdge tidy := by
  have closing : ∀ c, isClosingCharacter c = true → isBlank c = false := by
    intro c h
    simp only [isClosingCharacter, Bool.or_eq_true, decide_eq_true_eq] at h
    rcases h with rfl | rfl <;> decide
  have factorial : ∀ c : Char, decide (c = '!') = true → isBlank c = false := by
    intro c h
    rw [of_decide_eq_true h]
    decide
  exact ((erases_dropAfterOpening.comp (erases_dropBefore closing)).comp
    (erases_dropBefore factorial)).comp erases_dropBeforeArgument

/-! ## Parts of a text -/

/-- An edge stays one when more is known of what is around it. -/
structure Edge.Monotone (e : Edge) : Prop where
  before : ∀ before after, e none after = true → e before after = true
  after : ∀ before after, e before none = true → e before after = true

theorem Edge.Monotone.or {e e' : Edge} (h : e.Monotone) (h' : e'.Monotone) :
    (e.or e').Monotone where
  before b a known := by
    rw [Edge.or, Bool.or_eq_true] at known ⊢
    exact known.imp (h.before b a) (h'.before b a)
  after b a known := by
    rw [Edge.or, Bool.or_eq_true] at known ⊢
    exact known.imp (h.after b a) (h'.after b a)

theorem tidyEdge_monotone : tidyEdge.Monotone := by
  have opening : afterOpening.Monotone := ⟨fun _ _ h => (by cases h), fun _ _ h => h⟩
  have next : ∀ p, (beforeAll p).Monotone := fun p => ⟨fun _ _ h => h, fun _ _ h => by cases h⟩
  have argument : beforeArgument.Monotone := by
    refine ⟨fun _ _ h => (by cases h), fun before after h => ?_⟩
    rw [beforeArgument, Option.any_none, Bool.and_false] at h
    cases h
  exact ((opening.or (next _)).or (next _)).or argument

section

variable {e : Edge} (mono : e.Monotone) {before : Option Char} {cs : List Char}

include mono

theorem exposed_append_left (h : exposed e before cs = true) (ds : List Char) :
    exposed e before (cs ++ ds) = true := by
  induction cs generalizing before with
  | nil => cases h
  | cons c cs ih =>
    rw [exposed, Bool.or_eq_true, Bool.and_eq_true] at h
    rw [List.cons_append, exposed, Bool.or_eq_true, Bool.and_eq_true]
    refine h.imp (fun ⟨blank, edge⟩ => ⟨blank, ?_⟩) ih
    cases next : cs.dropWhile isBlank with
    | nil =>
      rw [next] at edge
      exact mono.after _ _ edge
    | cons d rest =>
      rw [next] at edge
      rw [List.dropWhile_append, next]
      exact edge

theorem exposed_append_right (h : exposed e none cs = true) (ds : List Char) :
    exposed e before (ds ++ cs) = true := by
  induction ds generalizing before with
  | nil =>
    cases cs with
    | nil => cases h
    | cons c cs =>
      rw [exposed, Bool.or_eq_true, Bool.and_eq_true] at h
      rw [List.nil_append, exposed, Bool.or_eq_true, Bool.and_eq_true]
      exact h.imp_left fun ⟨blank, edge⟩ => ⟨blank, mono.before _ _ edge⟩
  | cons d ds ih => rw [List.cons_append, exposed, ih, Bool.or_true]

end

/-- Blanks at an edge in a part of a text are so in the whole of it. -/
theorem not_exposed_part (cs ds es : List Char)
    (h : exposed tidyEdge none (cs ++ (ds ++ es)) = false) : exposed tidyEdge none ds = false := by
  rw [Bool.eq_false_iff] at h ⊢
  intro part
  exact h (exposed_append_right tidyEdge_monotone
    (exposed_append_left tidyEdge_monotone part es) cs)

/-! ## Trees -/

theorem unspaced_append (cs ds : List Char) : unspaced (cs ++ ds) = unspaced cs ++ unspaced ds :=
  List.filter_append cs ds

theorem unspaced_of_plain {cs : List Char} (h : Plain cs) : unspaced cs = cs := by
  rw [unspaced, List.filter_eq_self]
  intro c hc
  refine decide_eq_true fun space => ?_
  have gap := h.gapless c hc
  subst space
  cases gap

theorem unspaced_spaced (w : List Char) (ws : List (List Char)) :
    unspaced (spaced (w :: ws)) = unspaced w ++ unspaced (spaced ws) := by
  cases ws with
  | nil => exact (List.append_nil _).symm
  | cons v ws =>
    rw [spaced, unspaced_append, unspaced_space]
    simp

theorem unspaced_opening {o : Char} (h : isOpeningCharacter o = true) (cs : List Char) :
    unspaced (o :: cs) = o :: unspaced cs := by
  refine unspaced_cons ?_ cs
  rintro rfl
  cases h

theorem unspaced_closing {c : Char} (h : isClosingCharacter c = true) : unspaced [c] = [c] := by
  refine unspaced_cons ?_ []
  rintro rfl
  cases h

mutual

/-- Nothing but blanks is missing in the text of a token. -/
theorem thins_written (t : Token) (plain : ∀ l ∈ t.leaves, l.IsPlainLeaf) :
    Thins t.parts.flatten (unspaced t.written) := by
  cases t with
  | leaf kind lexeme span =>
    rw [Token.written, unspaced_of_plain (plain_of_leaf plain)]
    simpa [Token.parts] using Thins.refl lexeme.toList
  | pointer level lexeme span => exact absurd plain not_plain_pointer
  | group family tokens span =>
    obtain ⟨o, c, opening, closing, written, parts⟩ :=
      exists_brackets_of_group family tokens span
    rw [written, parts, unspaced_opening opening, unspaced_append, unspaced_closing closing]
    exact .keep o (((thins_spaced tokens plain).trans (thins_tidy _).unspace).append (.refl [c]))

theorem thins_spaced (ts : List Token) (plain : ∀ l ∈ leavesAll ts, l.IsPlainLeaf) :
    Thins (partsAll ts).flatten (unspaced (spaced (writtenAll ts))) := by
  cases ts with
  | nil => exact .nil
  | cons t ts =>
    obtain ⟨first, others⟩ := forall_leaves_cons plain
    rw [partsAll, List.flatten_append, writtenAll, unspaced_spaced]
    exact (thins_written t first).append (thins_spaced ts others)

end

mutual

/-- Nothing is missing in the text of a token if no blank is at an edge. -/
theorem unspaced_written (t : Token) (plain : ∀ l ∈ t.leaves, l.IsPlainLeaf)
    (kept : exposed tidyEdge none t.parts.flatten = false) :
    unspaced t.written = t.parts.flatten := by
  cases t with
  | leaf kind lexeme span =>
    rw [Token.written, unspaced_of_plain (plain_of_leaf plain)]
    simp [Token.parts]
  | pointer level lexeme span => exact absurd plain not_plain_pointer
  | group family tokens span =>
    obtain ⟨o, c, opening, closing, written, parts⟩ :=
      exists_brackets_of_group family tokens span
    rw [parts] at kept
    have inside : exposed tidyEdge none (partsAll tokens).flatten = false :=
      not_exposed_part [o] _ _ kept
    have whole := unspaced_writtenAll tokens plain inside
    have tidied := (erases_tidy.kept_iff _).2 (whole.symm ▸ inside)
    rw [written, parts, unspaced_opening opening, unspaced_append, unspaced_closing closing,
      tidied, whole]

theorem unspaced_writtenAll (ts : List Token) (plain : ∀ l ∈ leavesAll ts, l.IsPlainLeaf)
    (kept : exposed tidyEdge none (partsAll ts).flatten = false) :
    unspaced (spaced (writtenAll ts)) = (partsAll ts).flatten := by
  cases ts with
  | nil => rfl
  | cons t ts =>
    obtain ⟨first, others⟩ := forall_leaves_cons plain
    rw [partsAll, List.flatten_append] at kept ⊢
    have front := not_exposed_part [] _ _ kept
    have back : exposed tidyEdge none (partsAll ts).flatten = false :=
      not_exposed_part _ _ [] (by rwa [List.append_nil])
    rw [writtenAll, unspaced_spaced, unspaced_written t first front,
      unspaced_writtenAll ts others back]

end

/-- The text of a tree without its spaces is its words and brackets exactly if no
blank is at an edge among these. -/
theorem unspaced_sourceText_iff {ts : List Token} (plain : ∀ l ∈ leavesAll ts, l.IsPlainLeaf) :
    unspaced (sourceText ts).toList = (partsAll ts).flatten ↔
      exposed tidyEdge none (partsAll ts).flatten = false := by
  rw [sourceText, String.toList_ofList]
  constructor
  · intro same
    have tidied := (thins_tidy (spaced (writtenAll ts))).unspace
    rw [same] at tidied
    have whole := (thins_spaced ts plain).antisymm tidied
    rw [← whole, ← erases_tidy.kept_iff, same, whole]
  · intro kept
    have whole := unspaced_writtenAll ts plain kept
    rw [← whole]
    exact (erases_tidy.kept_iff _).2 (whole.symm ▸ kept)

/-! ## Lexemes -/

/-- The text without its spaces and brackets. -/
def bare (cs : List Char) : List Char := (unspaced cs).filter (!isBracketCharacter ·)

theorem not_bracket_of_isBlank {c : Char} (blank : isBlank c = true) :
    (!isBracketCharacter c) = true := by
  rw [Bool.not_eq_true', Bool.eq_false_iff]
  intro bracket
  obtain ⟨family, known | known⟩ := symbol_of_bracket bracket <;>
  · rw [(symbol_facts known).2.1] at blank
    cases blank

/-- The text of a tree keeps the texts of all words of the tree exactly if no blank
word is next to a bracket on the inside, before the mark of a factorial, or between a
letter and a round bracket that opens. In any case nothing else is lost, so all is kept
if no word of the tree is blank. -/
theorem lexemes_of_sourceText {limit : Nat} {code : String} {tree : List Token}
    (h : parseWithin limit code = .ok tree) :
    (bare (sourceText tree).toList = lexemesAll tree ↔
      exposed tidyEdge none (partsAll tree).flatten = false) ∧
    Thins (lexemesAll tree) (bare (sourceText tree).toList) ∧
    ((∀ c ∈ lexemesAll tree, isBlank c = false) →
      bare (sourceText tree).toList = lexemesAll tree) := by
  have plain := leaf_of_parse h
  have thins : Thins (partsAll tree).flatten (unspaced (sourceText tree).toList) := by
    rw [sourceText, String.toList_ofList]
    exact (thins_spaced tree plain).trans (thins_tidy _).unspace
  have thins' := thins.filter (!isBracketCharacter ·)
  rw [partsAll_unbracketed tree plain] at thins'
  refine ⟨?_, thins', thins'.eq_of_not_blank⟩
  rw [← unspaced_sourceText_iff plain, ← partsAll_unbracketed tree plain]
  constructor
  · intro same
    exact thins.eq_of_filter_eq (fun c => not_bracket_of_isBlank) same
  · intro same
    rw [bare, same]

theorem lexemes_of_sourceText_blank :
    let tree : List Token := [.leaf .number "2" ⟨0, 0⟩, .leaf .illegal "\u00a0" ⟨1, 1⟩,
      .leaf (.operator .plus) "+" ⟨2, 2⟩, .group .absolute [.leaf .number "3" ⟨4, 4⟩] ⟨3, 5⟩]
    parse "2\u00a0+[3]" = .ok tree ∧ sourceText tree = "2 \u00a0 + [3]" ∧
      bare (sourceText tree).toList = lexemesAll tree := by
  intro tree
  have read : parse "2\u00a0+[3]" = .ok tree := by decide +kernel
  exact ⟨read, by decide, (lexemes_of_sourceText read).1.2 (by decide)⟩

/-- A blank word next to a bracket is erased. -/
theorem lexeme_erased :
    let tree : List Token := [.group .round [.leaf .illegal "\u00a0" ⟨1, 1⟩] ⟨0, 2⟩]
    parse "(\u00a0)" = .ok tree ∧ lexemesAll tree = ['\u00a0'] ∧ sourceText tree = "()" ∧
      bare (sourceText tree).toList ≠ lexemesAll tree := by
  intro tree
  exact ⟨by decide +kernel, by decide, by decide, by decide⟩

end Calculator
