import Calculator.Token.Text

/-!
# Written trees

The text of a tree is its words with spaces between them, some of them tidied away.

* `Thins`: some of the blanks of a text are left out (`thins_tidy`).
* `Gapped`: words with spaces between them; tidying leaves it at that
  (`Gapped.thin`).
* `gapped_sourceText`: the text of a tree holds the words of the tree in order.
-/

namespace Calculator

open Text (isBlank)

/-! ## Blanks left out -/

/-- The second text is the first without some of its blanks. -/
inductive Thins : List Char → List Char → Prop where
  | nil : Thins [] []
  | keep (c : Char) {cs ds : List Char} (tail : Thins cs ds) : Thins (c :: cs) (c :: ds)
  | drop {c : Char} (blank : isBlank c = true) {cs ds : List Char} (tail : Thins cs ds) :
      Thins (c :: cs) ds

namespace Thins

theorem trans {cs ds es : List Char} (h : Thins cs ds) (h' : Thins ds es) : Thins cs es := by
  induction h generalizing es with
  | nil => exact h'
  | keep c tail ih =>
    cases h' with
    | keep _ tail' => exact .keep c (ih tail')
    | drop blank tail' => exact .drop blank (ih tail')
  | drop blank tail ih => exact .drop blank (ih h')

/-- Two texts in a row lose their blanks one by one. -/
theorem of_append {cs ds es : List Char} (h : Thins (cs ++ ds) es) :
    ∃ cs' ds', es = cs' ++ ds' ∧ Thins cs cs' ∧ Thins ds ds' := by
  induction cs generalizing es with
  | nil => exact ⟨[], es, rfl, .nil, h⟩
  | cons c cs ih =>
    cases h with
    | keep _ tail =>
      obtain ⟨cs', ds', rfl, left, right⟩ := ih tail
      exact ⟨c :: cs', ds', rfl, .keep c left, right⟩
    | drop blank tail =>
      obtain ⟨cs', ds', rfl, left, right⟩ := ih tail
      exact ⟨cs', ds', rfl, .drop blank left, right⟩

theorem eq_of_not_blank {cs ds : List Char} (h : Thins cs ds)
    (solid : ∀ c ∈ cs, isBlank c = false) : ds = cs := by
  induction h with
  | nil => rfl
  | keep c tail ih => rw [ih fun d hd => solid d (List.mem_cons_of_mem _ hd)]
  | drop blank tail ih =>
    rw [solid _ List.mem_cons_self] at blank
    cases blank

theorem of_spaces {n : Nat} {ds : List Char} (h : Thins (List.replicate n ' ') ds) :
    ∃ m, ds = List.replicate m ' ' := by
  induction n generalizing ds with
  | zero =>
    cases h
    exact ⟨0, rfl⟩
  | succ n ih =>
    rw [List.replicate_succ] at h
    cases h with
    | keep _ tail =>
      obtain ⟨m, rfl⟩ := ih tail
      exact ⟨m + 1, rfl⟩
    | drop blank tail => exact ih tail

end Thins

theorem thins_dropAfterOpening (after : Bool) (cs : List Char) :
    Thins cs (dropAfterOpening after cs) := by
  induction cs generalizing after with
  | nil => exact .nil
  | cons c cs ih =>
    rw [dropAfterOpening]
    split
    · rename_i h
      rw [Bool.and_eq_true] at h
      exact .drop h.2 (ih true)
    · exact .keep c (ih _)

theorem thins_dropBefore (p : Char → Bool) (cs : List Char) : Thins cs (dropBefore p cs) := by
  induction cs with
  | nil => exact .nil
  | cons c cs ih =>
    simp only [dropBefore]
    split
    · rename_i h
      rw [Bool.and_eq_true] at h
      exact .drop h.1 ih
    · exact .keep c ih

theorem thins_dropBeforeArgument (after : Bool) (cs : List Char) :
    Thins cs (dropBeforeArgument after cs) := by
  induction cs generalizing after with
  | nil => exact .nil
  | cons c cs ih =>
    rw [dropBeforeArgument]
    split
    · rename_i h
      rw [Bool.and_eq_true, Bool.and_eq_true] at h
      exact .drop h.1.2 (ih true)
    · exact .keep c (ih _)

/-- Tidying up only leaves blanks out. -/
theorem thins_tidy (cs : List Char) : Thins cs (tidy cs) :=
  (((thins_dropAfterOpening false cs).trans (thins_dropBefore _ _)).trans
    (thins_dropBefore _ _)).trans (thins_dropBeforeArgument false _)

/-! ## Words with spaces between them -/

inductive Gapped : List (List Char) → List Char → Prop where
  | nil (n : Nat) : Gapped [] (List.replicate n ' ')
  | cons (n : Nat) {w : List Char} {ws : List (List Char)} {text : List Char}
      (tail : Gapped ws text) : Gapped (w :: ws) (List.replicate n ' ' ++ (w ++ text))

namespace Gapped

variable {ws us : List (List Char)} {text text' : List Char}

theorem spaces (n : Nat) (h : Gapped ws text) : Gapped ws (List.replicate n ' ' ++ text) := by
  cases h with
  | nil m =>
    rw [List.replicate_append_replicate]
    exact .nil _
  | cons m tail =>
    rw [← List.append_assoc, List.replicate_append_replicate]
    exact .cons _ tail

theorem append (h : Gapped ws text) (h' : Gapped us text') : Gapped (ws ++ us) (text ++ text') := by
  induction h with
  | nil n => exact h'.spaces n
  | cons n tail ih =>
    rw [List.append_assoc, List.append_assoc]
    exact .cons n ih

theorem word (w : List Char) : Gapped [w] w := by
  have h := Gapped.cons (w := w) 0 (.nil 0)
  simpa using h

/-- Words stay what they are when blanks are left out. -/
theorem thin (h : Gapped ws text) (solid : ∀ w ∈ ws, ∀ c ∈ w, isBlank c = false)
    (thins : Thins text text') : Gapped ws text' := by
  induction h generalizing text' with
  | nil n =>
    obtain ⟨m, rfl⟩ := thins.of_spaces
    exact .nil m
  | cons n tail ih =>
    obtain ⟨front, rest, rfl, spaces, thins'⟩ := thins.of_append
    obtain ⟨w', back, rfl, same, thins''⟩ := thins'.of_append
    obtain ⟨m, rfl⟩ := spaces.of_spaces
    rw [same.eq_of_not_blank fun c hc => solid _ List.mem_cons_self c hc]
    exact .cons m (ih (fun w hw => solid w (List.mem_cons_of_mem _ hw)) thins'')

end Gapped

/-! ## The words of a tree -/

mutual

/-- The texts of the words of a token, brackets around groups included. -/
def Token.parts : Token → List (List Char)
  | .leaf _ lexeme _ | .pointer _ lexeme _ => [lexeme.toList]
  | .group .round tokens _ => ['('] :: (partsAll tokens ++ [[')']])
  | .group .absolute tokens _ => ['['] :: (partsAll tokens ++ [[']']])

def partsAll : List Token → List (List Char)
  | [] => []
  | t :: rest => t.parts ++ partsAll rest

end

theorem partsAll_append (ts us : List Token) :
    partsAll (ts ++ us) = partsAll ts ++ partsAll us := by
  induction ts with
  | nil => rfl
  | cons t ts ih => simp [partsAll, ih]

theorem partsAll_singleton (t : Token) : partsAll [t] = t.parts := by
  simp [partsAll]

mutual

theorem gapped_written (t : Token) (solid : ∀ w ∈ t.parts, ∀ c ∈ w, isBlank c = false) :
    Gapped t.parts t.written := by
  cases t with
  | leaf kind lexeme span =>
    rw [Token.parts, Token.written]
    exact .word _
  | pointer level lexeme span =>
    rw [Token.parts, Token.written]
    exact .word _
  | group family tokens span =>
    have inside : (∀ w ∈ partsAll tokens, ∀ c ∈ w, isBlank c = false) →
        Gapped (partsAll tokens) (tidy (spaced (writtenAll tokens))) :=
      fun solid => (gapped_spaced tokens solid).thin solid (thins_tidy _)
    cases family with
    | round =>
      rw [Token.parts] at solid ⊢
      rw [Token.written]
      have contents := inside fun w hw => solid w (by simp [hw])
      exact (Gapped.word ['(']).append (contents.append (.word [')']))
    | absolute =>
      rw [Token.parts] at solid ⊢
      rw [Token.written]
      have contents := inside fun w hw => solid w (by simp [hw])
      exact (Gapped.word ['[']).append (contents.append (.word [']']))

theorem gapped_spaced (ts : List Token) (solid : ∀ w ∈ partsAll ts, ∀ c ∈ w, isBlank c = false) :
    Gapped (partsAll ts) (spaced (writtenAll ts)) := by
  cases ts with
  | nil => exact .nil 0
  | cons t rest =>
    rw [partsAll] at solid ⊢
    have first := gapped_written t fun w hw => solid w (List.mem_append_left _ hw)
    have others := gapped_spaced rest fun w hw => solid w (List.mem_append_right _ hw)
    cases rest with
    | nil =>
      rw [partsAll, List.append_nil]
      exact first
    | cons u rest => exact first.append (others.spaces 1)

end

/-- The text of a tree holds its words in order. -/
theorem gapped_sourceText (tree : List Token)
    (solid : ∀ w ∈ partsAll tree, ∀ c ∈ w, isBlank c = false) :
    Gapped (partsAll tree) (sourceText tree).toList := by
  rw [sourceText, String.toList_ofList]
  exact (gapped_spaced tree solid).thin solid (thins_tidy _)

end Calculator
