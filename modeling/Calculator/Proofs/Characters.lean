import Calculator.Token.Scan
import Calculator.Text.Blank

/-!
# Classes of characters

The classes that the scanner tells apart have no character in common, and none of
their characters is blank.

* `Ranges.apart`: whether two tables of ranges do not meet (`not_covers_of_apart`).
* `numeral_facts`, `letter_facts`, `symbol_facts`: what a character of one class is
  not.
-/

namespace Calculator

open Text (Ranges isLetter isDigit isBlank letterRanges digitRanges blankRanges)

/-! ## Tables -/

/-- Whether no row of the first table meets one of the second. Both tables are
gone through once: rows below the present one meet none of the later rows. -/
def Text.Ranges.apart : Ranges → Ranges → Bool
  | [], _ => true
  | r :: a, b =>
      let above := b.dropWhile fun s => Nat.blt s.2 r.1
      above.head?.all (fun s => Nat.blt r.2 s.1) && Ranges.apart a above

theorem covers_dropWhile {table : Ranges} {m n : Nat} (h : table.covers n = true) (le : m ≤ n) :
    Ranges.covers (table.dropWhile fun s => Nat.blt s.2 m) n = true := by
  induction table with
  | nil => exact h
  | cons s rest ih =>
    rw [List.dropWhile_cons]
    split
    · rename_i below
      rw [Nat.blt_eq] at below
      obtain ⟨first, last⟩ := s
      rw [Ranges.covers] at h
      split at h
      · cases h
      · rw [if_neg (by change last < m at below; omega)] at h
        exact ih h
    · exact h

theorem not_covers_of_apart {a b : Ranges} (h : a.apart b = true) {n : Nat}
    (ha : a.covers n = true) : b.covers n = false := by
  rw [Bool.eq_false_iff]
  intro hb
  induction a generalizing b with
  | nil => cases ha
  | cons r a ih =>
    obtain ⟨first, last⟩ := r
    rw [Ranges.apart, Bool.and_eq_true] at h
    rw [Ranges.covers] at ha
    split at ha
    · cases ha
    · have above := covers_dropWhile hb (Nat.le_of_not_lt ‹_›)
      split at ha
      · cases hd : b.dropWhile fun s => Nat.blt s.2 first with
        | nil =>
          rw [hd] at above
          cases above
        | cons s rest =>
          have head := h.1
          rw [hd] at head above
          rw [List.head?_cons, Option.all_some, Nat.blt_eq] at head
          rw [Ranges.covers, if_pos (by change last < s.1 at head; omega)] at above
          cases above
      · exact ih h.2 ha above

theorem digits_apart_letters : Ranges.apart digitRanges letterRanges = true := by decide +kernel

theorem digits_apart_blanks : Ranges.apart digitRanges blankRanges = true := by decide +kernel

theorem letters_apart_blanks : Ranges.apart letterRanges blankRanges = true := by decide +kernel

/-! ## What a character is not -/

theorem symbol?_eq_none {c : Char}
    (other : ∀ d ∈ ['+', '-', '*', '•', '/', ':', '%', '^', '(', ')', '[', ']', '!', '='], c ≠ d) :
    symbol? c = none := by
  unfold symbol?
  split
  case h_15 => rfl
  all_goals exact absurd rfl (other _ (by decide))

theorem isGap_eq_false {c : Char} (other : ∀ d ∈ [' ', '\t', '\r', '\n'], c ≠ d) :
    isGap c = false := by
  simp only [isGap, Bool.or_eq_false_iff, decide_eq_false_iff_not]
  exact ⟨⟨⟨other _ (by decide), other _ (by decide)⟩, other _ (by decide)⟩, other _ (by decide)⟩

theorem isSignCharacter_eq_false {c : Char} (other : ∀ d ∈ ['+', '-'], c ≠ d) :
    isSignCharacter c = false := by
  simp only [isSignCharacter, Bool.or_eq_false_iff, decide_eq_false_iff_not]
  exact ⟨other _ (by decide), other _ (by decide)⟩

theorem ne_of_class {p : Char → Bool} {c : Char} (h : p c = true) {others : List Char}
    (outside : others.all (!p ·) = true) : ∀ d ∈ others, c ≠ d := by
  rintro d hd rfl
  have := List.all_eq_true.1 outside c hd
  rw [h] at this
  cases this

theorem isNumeral_iff {c : Char} : isNumeral c = true ↔ isDigit c = true ∨ c = '.' := by
  simp [isNumeral]

theorem isSignCharacter_iff {c : Char} : isSignCharacter c = true ↔ c = '+' ∨ c = '-' := by
  simp [isSignCharacter]

theorem numeral_facts {c : Char} (h : isNumeral c = true) :
    isGap c = false ∧ isBlank c = false ∧ isLetter c = false ∧ isSignCharacter c = false ∧
      symbol? c = none := by
  rcases isNumeral_iff.1 h with digit | rfl
  · exact ⟨isGap_eq_false (ne_of_class digit (by decide)),
      not_covers_of_apart digits_apart_blanks digit,
      not_covers_of_apart digits_apart_letters digit,
      isSignCharacter_eq_false (ne_of_class digit (by decide)),
      symbol?_eq_none (ne_of_class digit (by decide))⟩
  · decide

theorem letter_facts {c : Char} (h : isLetter c = true) :
    isGap c = false ∧ isBlank c = false ∧ isNumeral c = false ∧ isSignCharacter c = false ∧
      symbol? c = none := by
  refine ⟨isGap_eq_false (ne_of_class h (by decide)), not_covers_of_apart letters_apart_blanks h,
    ?_, isSignCharacter_eq_false (ne_of_class h (by decide)),
    symbol?_eq_none (ne_of_class h (by decide +kernel))⟩
  rw [Bool.eq_false_iff]
  intro numeral
  rw [(numeral_facts numeral).2.2.1] at h
  cases h

theorem symbol_facts {c : Char} {kind : Kind} (h : symbol? c = some kind) :
    isGap c = false ∧ isBlank c = false ∧ isNumeral c = false ∧ isLetter c = false := by
  unfold symbol? at h
  split at h
  case h_15 => cases h
  all_goals decide +kernel

theorem symbol?_ne_number {c : Char} (h : symbol? c = some .number) : False := by
  unfold symbol? at h
  split at h <;> cases h

theorem isGap_facts {c : Char} (h : isGap c = true) :
    isNumeral c = false ∧ isLetter c = false ∧ isSignCharacter c = false := by
  simp only [isGap, Bool.or_eq_true, decide_eq_true_eq] at h
  rcases h with ((rfl | rfl) | rfl) | rfl <;> decide

theorem sign_facts {c : Char} (h : isSignCharacter c = true) :
    isGap c = false ∧ isNumeral c = false ∧ isLetter c = false ∧ endsOperand c = false := by
  rcases isSignCharacter_iff.1 h with rfl | rfl <;> decide

end Calculator
