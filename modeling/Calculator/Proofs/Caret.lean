import Calculator.Proofs.Culprits

/-!
# Where the caret stands

A message ends with a line that holds a caret. It stands under the character to blame
as long as no line feed is shown: a window that goes over several lines puts only the
last of them above the caret.

* `Diagnostic.window_column`: the column of a place in the window around it.
* `Diagnostic.lines_render`: the lines of a message.
* `CaretUnder`: the caret of a text stands under some character.
* `caret_of_fault`: when the caret of a fault stands under the character to blame.
-/

namespace Calculator

/-! ## Windows -/

namespace Diagnostic

/-- The characters around a place, without the dots. -/
def excerpt (code : List Char) (place : Nat) : List Char :=
  (code.drop (place - reach)).take (min code.length (place + reach) - (place - reach))

theorem excerpt_get {code : List Char} {place i : Nat} {c : Char} :
    (excerpt code place)[i]? = some c ↔
      place - reach + i < place + reach ∧ code[place - reach + i]? = some c := by
  rw [excerpt, List.getElem?_take]
  split
  · rw [List.getElem?_drop]
    constructor
    · intro here
      exact ⟨by omega, here⟩
    · exact And.right
  · constructor
    · intro none
      cases none
    · rintro ⟨near, here⟩
      obtain ⟨inside, _⟩ := List.getElem?_eq_some_iff.1 here
      omega

/-- The character at a place is shown in the column of the place. -/
theorem window_column {code : List Char} {place : Nat} {c : Char} (here : code[place]? = some c) :
    (window code place).1[(window code place).2]? = some c := by
  obtain ⟨inside, _⟩ := List.getElem?_eq_some_iff.1 here
  have shown : (excerpt code place)[place - (place - reach)]? = some c := by
    refine excerpt_get.2 ⟨?_, ?_⟩
    · simp only [reach]
      omega
    · rwa [show place - reach + (place - (place - reach)) = place by omega]
  obtain ⟨short, _⟩ := List.getElem?_eq_some_iff.1 shown
  simp only [window, List.append_assoc]
  rw [List.getElem?_append_right (Nat.le_add_right _ _), Nat.add_sub_cancel_left]
  exact (List.getElem?_append_left short).trans shown

/-- A line feed is shown only if it is near enough. -/
theorem newline_of_window {code : List Char} {place : Nat}
    (shown : '\n' ∈ (window code place).1) :
    ∃ i, place ≤ i + reach ∧ i < place + reach ∧ code[i]? = some '\n' := by
  have mem : '\n' ∈ excerpt code place := by
    simp only [window, List.mem_append] at shown
    rcases shown with (dots | mem) | dots
    · split at dots <;> simp at dots
    · exact mem
    · split at dots <;> simp at dots
  obtain ⟨i, here⟩ := List.mem_iff_getElem?.1 mem
  obtain ⟨near, here⟩ := excerpt_get.1 here
  exact ⟨_, by omega, near, here⟩

end Diagnostic

/-! ## Lines -/

/-- What stands between the line feeds of a text. -/
def linesOf (text : String) : List (List Char) := text.toList.splitOn '\n'

/-- A line with nothing but a caret in some column. -/
def caretLine (column : Nat) : List Char := List.replicate column ' ' ++ ['^']

theorem caretLine_length (column : Nat) : (caretLine column).length = column + 1 := by
  simp [caretLine]

theorem newline_not_mem_caretLine (column : Nat) : '\n' ∉ caretLine column := by
  simp [caretLine, List.mem_replicate]

/-- The text ends with the line of a caret, and above the caret stands a character. -/
def CaretUnder (text : String) (c : Char) : Prop :=
  ∃ front above column, linesOf text = front ++ [above, caretLine column] ∧
    above[column]? = some c

theorem caretUnder_iff {text : String} {front : List (List Char)} {above : List Char}
    {column : Nat} (lines : linesOf text = front ++ [above, caretLine column]) (c : Char) :
    CaretUnder text c ↔ above[column]? = some c := by
  constructor
  · rintro ⟨front', above', column', lines', here⟩
    rw [lines] at lines'
    obtain ⟨_, same⟩ := List.append_inj' lines' rfl
    injection same with above_eq same
    injection same with caret _
    have width := congrArg List.length caret
    rw [caretLine_length, caretLine_length, Nat.add_right_cancel_iff] at width
    rwa [above_eq, width]
  · intro here
    exact ⟨front, above, column, lines, here⟩

/-- The last of several lines can be cut off. -/
theorem exists_lastLine {cs : List Char} (broken : '\n' ∈ cs) :
    ∃ front above, cs = front ++ '\n' :: above ∧ '\n' ∉ above := by
  induction cs with
  | nil => cases broken
  | cons c cs ih =>
    -- the last line feed is a later one if there is any
    by_cases later : '\n' ∈ cs
    · obtain ⟨front, above, rfl, single⟩ := ih later
      exact ⟨c :: front, above, rfl, single⟩
    · rcases List.mem_cons.1 broken with rfl | mem
      · exact ⟨[], cs, rfl, later⟩
      · exact absurd mem later

namespace Diagnostic

/-- A message with a place has its header, the lines of the window and the caret. -/
theorem lines_render {d : Diagnostic} {place : Nat} (here : d.position = some (place : Int))
    (inside : place < d.code.length) :
    linesOf d.render = d.header.toList.splitOn '\n' ++
      ((window d.code.toList place).1.splitOn '\n' ++
        [caretLine (window d.code.toList place).2]) := by
  have nonempty : d.code ≠ "" := by
    intro empty
    rw [empty] at inside
    cases inside
  have text : d.render.toList = d.header.toList ++ '\n' ::
      ((window d.code.toList place).1 ++ '\n' :: caretLine (window d.code.toList place).2) := by
    rw [render_of_position here nonempty (Nat.le_of_lt inside)]
    simp [caretLine]
  rw [linesOf, text, List.splitOn_append_cons_self, List.splitOn_append_cons_self,
    List.splitOn_eq_singleton (newline_not_mem_caretLine _)]

end Diagnostic

/-! ## Carets of faults -/

open Diagnostic (window reach)

/-- A message ends with the line of a caret. Above the caret stands the character to
blame if no line feed is shown, and else what the last of the lines shown has there. -/
theorem caret_of_describe {code : String} {fault : Fault} {place : Nat} {c : Char}
    (here : fault.position = some (place : Int)) (blamed : code.toList[place]? = some c) :
    (∃ front above column, linesOf (fault.describe code) = front ++ [above, caretLine column]) ∧
      (CaretUnder (fault.describe code) c ↔
        '\n' ∉ (window code.toList place).1 ∨ ∃ front above,
          (window code.toList place).1 = front ++ '\n' :: above ∧ '\n' ∉ above ∧
            above[(window code.toList place).2]? = some c) := by
  obtain ⟨inside, _⟩ := List.getElem?_eq_some_iff.1 blamed
  rw [String.length_toList] at inside
  have lines : linesOf (fault.describe code) = (fault.diagnostic code).header.toList.splitOn '\n' ++
      ((window code.toList place).1.splitOn '\n' ++
        [caretLine (window code.toList place).2]) :=
    Diagnostic.lines_render here inside
  have column := Diagnostic.window_column blamed
  by_cases broken : '\n' ∈ (window code.toList place).1
  · -- for any way to cut off the last line, as both directions bring one of their own
    have last : ∀ {front above : List Char},
        (window code.toList place).1 = front ++ '\n' :: above → '\n' ∉ above →
        linesOf (fault.describe code) =
          ((fault.diagnostic code).header.toList.splitOn '\n' ++ front.splitOn '\n') ++
            [above, caretLine (window code.toList place).2] := by
      intro front above split single
      rw [lines, split, List.splitOn_append_cons_self, List.splitOn_eq_singleton single]
      simp
    obtain ⟨front, above, split, single⟩ := exists_lastLine broken
    refine ⟨⟨_, _, _, last split single⟩, ?_⟩
    constructor
    · intro under
      exact .inr ⟨front, above, split, single, (caretUnder_iff (last split single) c).1 under⟩
    · rintro (whole | ⟨front', above', split', single', same⟩)
      · exact absurd broken whole
      · exact (caretUnder_iff (last split' single') c).2 same
  · rw [List.splitOn_eq_singleton broken] at lines
    refine ⟨⟨_, _, _, lines⟩, ?_⟩
    rw [caretUnder_iff lines]
    exact ⟨fun _ => .inl broken, fun _ => column⟩

section

variable {limits : Limits} {code : String} {env : Environment} {fault : Fault} {p : Int}

theorem calculateWithin_placed (h : (calculateWithin limits code env).result = .error fault) :
    fault.IsPlaced := by
  unfold calculateWithin at h
  split at h
  · rename_i tree parsed
    exact evaluateWithin_placed limits.evaluating .round tree ⟨env, []⟩ fault h
  · rename_i refused parsed
    cases h
    by_cases empty : code = ""
    · subst empty
      cases parsed
      exact fun _ => rfl
    · obtain ⟨_, _, _, ⟨fault', checked, refused⟩ | ⟨f, _, _, read⟩⟩ := parse_cases empty
      · cases parsed.symm.trans (refused limits.reading)
        split
        · exact fun _ => rfl
        · intro general
          rw [bracketFault_category checked] at general
          cases general
      · cases tooDeep_of_atDepth ((read limits.reading).symm.trans parsed)
        exact fun _ => rfl

/-- No fault is placed in front of the text. -/
theorem position_nonneg (h : (calculateWithin limits code env).result = .error fault)
    (here : fault.position = some p) : 0 ≤ p := by
  have nonempty : code ≠ "" := by
    rintro rfl
    cases h
    cases here
  have scanned := scan_eq_of_ne nonempty
  rcases calculateWithin_traced scanned h with general | ⟨t, mem, _, blamed⟩
  · rw [calculateWithin_placed h general] at here
    cases here
  · rw [here, Option.some.injEq] at blamed
    obtain ⟨start, ordered, _⟩ := (inOrder_of_scan scanned).within t mem
    unfold Cause.place at blamed
    split at blamed
    · omega
    · omega

/-- A message about a character of the text ends with a line of spaces and a caret. The
caret stands under the character if no line feed is within reach of it. Otherwise it
stands under what is in its column of the last line shown, which may be the same
character by chance. -/
theorem caret_of_fault (h : (calculateWithin limits code env).result = .error fault)
    (here : fault.position = some p) (inside : p < code.length) :
    ∃ (place : Nat) (c : Char), p = place ∧ code.toList[place]? = some c ∧
      (∃ front above column,
        linesOf (fault.describe code) = front ++ [above, caretLine column]) ∧
      ((∀ i, place ≤ i + reach → i < place + reach → code.toList[i]? ≠ some '\n') →
        CaretUnder (fault.describe code) c) ∧
      (CaretUnder (fault.describe code) c ↔
        '\n' ∉ (window code.toList place).1 ∨ ∃ front above,
          (window code.toList place).1 = front ++ '\n' :: above ∧ '\n' ∉ above ∧
            above[(window code.toList place).2]? = some c) := by
  have known := position_nonneg h here
  obtain ⟨place, rfl⟩ := Int.eq_ofNat_of_zero_le known
  have inside : place < code.toList.length := by
    rw [String.length_toList]
    omega
  have blamed := List.getElem?_eq_getElem inside
  obtain ⟨ends, under⟩ := caret_of_describe here blamed
  refine ⟨place, _, rfl, blamed, ends, fun unbroken => under.2 (.inl fun shown => ?_), under⟩
  obtain ⟨i, low, high, feed⟩ := Diagnostic.newline_of_window shown
  exact unbroken i low high feed

end

/-- A line feed further away does no harm, nor does a tab within the window. -/
theorem caret_of_fault_tab :
    ∃ message : String,
      (calculate "1\n+2+3+4+5+6+\tx" .empty).result = .error ⟨.unboundName "x", some 14⟩ ∧
      (⟨.unboundName "x", some 14⟩ : Fault).describe "1\n+2+3+4+5+6+\tx" = message ∧
      CaretUnder message 'x' := by
  have h : (calculate "1\n+2+3+4+5+6+\tx" .empty).result =
      .error ⟨.unboundName "x", some 14⟩ := by
    decide +kernel
  obtain ⟨place, c, same, blamed, _, under, _⟩ := caret_of_fault h rfl (by decide)
  have same : place = 14 := by omega
  subst same
  cases blamed
  have unbroken : ∀ i < 24, 4 ≤ i → "1\n+2+3+4+5+6+\tx".toList[i]? ≠ some '\n' := by decide
  have near : 14 - Diagnostic.reach = 4 := rfl
  exact ⟨_, h, rfl, under fun i low high => unbroken i high (by omega)⟩

/-- The caret is set as if the text were one line, but stands below its last line. -/
theorem caret_astray :
    (calculate "1\n+x" .empty).result = .error ⟨.unboundName "x", some 3⟩ ∧
      "1\n+x".toList[3]? = some 'x' ∧
      ¬ CaretUnder ((⟨.unboundName "x", some 3⟩ : Fault).describe "1\n+x") 'x' := by
  have lines : linesOf ((⟨.unboundName "x", some 3⟩ : Fault).describe "1\n+x") =
      ["[Evaluation error] Undefined variable 'x'".toList, "1".toList] ++
        ["+x".toList, caretLine 3] := by
    decide +kernel
  refine ⟨by decide +kernel, by decide, ?_⟩
  rw [caretUnder_iff lines]
  decide

end Calculator
