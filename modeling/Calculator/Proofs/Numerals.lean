import Calculator.Evaluation
import Calculator.Proofs.Extents

/-!
# Which numerals are numbers

The scanner takes every run of digits and points for a number, with or without a sign
in front. Evaluation reads fewer of them.

* `Readable`: the runs that stand for a number, in decimal digits of any script.
* `Decimal.mapM_toAscii?`: what becomes of a run of decimal digits and points.
* `Decimal.readMagnitude?_isSome_iff`, `Decimal.read?_isSome_iff`: which runs are read.
* `numbers_of_scan`: a number in a text has a value if its numerals are readable, and
  else is at fault itself.
-/

namespace Calculator

open Text (isDigit isBlank decimalValue? decimalRanges digitRanges)

/-! ## Readable numerals -/

/-- The character is a decimal digit, which has a value in a positional numeral. -/
def isDecimal (c : Char) : Bool := (decimalValue? c).isSome

/-- Digits and points that stand for a number. -/
structure Readable (numerals : List Char) : Prop where
  digit : ∃ c ∈ numerals, isDecimal c = true
  point : numerals.count '.' ≤ 1
  decimal : ∀ c ∈ numerals, isDigit c = true → isDecimal c = true

theorem readable_iff (numerals : List Char) :
    Readable numerals ↔ (∃ c ∈ numerals, isDecimal c = true) ∧ numerals.count '.' ≤ 1 ∧
      ∀ c ∈ numerals, isDigit c = true → isDecimal c = true :=
  ⟨fun ⟨digit, point, decimal⟩ => ⟨digit, point, decimal⟩,
    fun ⟨digit, point, decimal⟩ => ⟨digit, point, decimal⟩⟩

instance (numerals : List Char) : Decidable (Readable numerals) :=
  decidable_of_iff (numerals.any isDecimal = true ∧ numerals.count '.' ≤ 1 ∧
      numerals.all (fun c => !isDigit c || isDecimal c) = true) <| by
    have decimal : ∀ c, (!isDigit c || isDecimal c) = true ↔
        (isDigit c = true → isDecimal c = true) := by
      intro c
      cases isDigit c <;> simp
    simp only [readable_iff, List.any_eq_true, List.all_eq_true, decimal]

theorem point_not_decimal : isDecimal '.' = false := by decide

/-! ## Digits of any script -/

theorem ascii_isDigit_iff {c : Char} : c.isDigit = true ↔ 48 ≤ c.toNat ∧ c.toNat ≤ 57 := by
  change (decide ('0'.val ≤ c.val) && decide (c.val ≤ '9'.val)) = true ↔ _
  simp only [Bool.and_eq_true, decide_eq_true_eq, UInt32.le_iff_toNat_le]
  exact Iff.rfl

theorem not_isBlank_of_isDigit {c : Char} (digit : isDigit c = true) : isBlank c = false :=
  (numeral_facts (isNumeral_iff.2 (.inl digit))).2.1

/-- Below 128 only the ASCII digits are digits. -/
theorem ascii_of_isDigit {c : Char} (digit : isDigit c = true) (small : c.toNat < 128) :
    c.isDigit = true := by
  have first : ∀ row ∈ digitRanges, row.1 < 128 → row = (48, 57) := by decide
  obtain ⟨row, mem, low, high⟩ := Text.Ranges.exists_of_covers digit
  cases first row mem (by omega)
  exact ascii_isDigit_iff.2 ⟨low, high⟩

theorem isDecimal_of_ascii {c : Char} (h : c.isDigit = true) : isDecimal c = true := by
  obtain ⟨low, high⟩ := ascii_isDigit_iff.1 h
  rw [isDecimal, decimalValue?, Option.isSome_map, List.find?_isSome]
  exact ⟨(48, 57), by decide, by simpa using ⟨low, high⟩⟩

namespace Decimal

/-! ## Digits of any script in ASCII -/

theorem toAscii?_point : toAscii? '.' = some '.' := by decide

theorem toAscii?_decimal {c : Char} (digit : isDigit c = true) (decimal : isDecimal c = true) :
    ∃ d, toAscii? c = some d ∧ d.isDigit = true := by
  by_cases small : c.toNat < 128
  · exact ⟨c, if_pos small, ascii_of_isDigit digit small⟩
  · obtain ⟨value, some⟩ := Option.isSome_iff_exists.1 decimal
    have plain : ∀ v < 10, (Nat.digitChar v).isDigit = true := by decide
    refine ⟨Nat.digitChar value, ?_, plain value (Text.decimalValue?_lt some)⟩
    simp [toAscii?, small, not_isBlank_of_isDigit digit, some]

theorem toAscii?_not_decimal {c : Char} (digit : isDigit c = true) (other : isDecimal c = false) :
    toAscii? c = none := by
  have large : ¬ c.toNat < 128 := by
    intro small
    rw [isDecimal_of_ascii (ascii_of_isDigit digit small)] at other
    cases other
  have valueless : decimalValue? c = none := Option.isNone_iff_eq_none.1 (by
    rwa [← Option.not_isSome, Bool.not_eq_true'])
  simp [toAscii?, large, not_isBlank_of_isDigit digit, valueless]

/-- An ASCII digit or a point. -/
def isPlain (c : Char) : Bool := c.isDigit || c = '.'

theorem isPlain_iff {c : Char} : isPlain c = true ↔ c.isDigit = true ∨ c = '.' := by
  simp [isPlain]

/-- Decimal digits become ASCII digits, points stay. -/
theorem mapM_toAscii? {cs : List Char} (numerals : ∀ c ∈ cs, isNumeral c = true)
    (decimal : ∀ c ∈ cs, isDigit c = true → isDecimal c = true) :
    ∃ ascii, cs.mapM toAscii? = some ascii ∧ (∀ a ∈ ascii, isPlain a = true) ∧
      ascii.count '.' = cs.count '.' ∧ ascii.length = cs.length := by
  induction cs with
  | nil => exact ⟨[], by simp⟩
  | cons c cs ih =>
    obtain ⟨ascii, mapped, plain, points, length⟩ :=
      ih (fun d hd => numerals d (List.mem_cons_of_mem _ hd))
        (fun d hd => decimal d (List.mem_cons_of_mem _ hd))
    rcases isNumeral_iff.1 (numerals c List.mem_cons_self) with digit | rfl
    · obtain ⟨d, some, isDigit⟩ := toAscii?_decimal digit (decimal c List.mem_cons_self digit)
      refine ⟨d :: ascii, by simp [List.mapM_cons, some, mapped], ?_, ?_, by simp [length]⟩
      · simpa [isPlain, isDigit] using plain
      · have pointless : d ≠ '.' := by rintro rfl; cases isDigit
        have pointless' : c ≠ '.' := by rintro rfl; cases digit
        rw [List.count_cons_of_ne pointless, List.count_cons_of_ne pointless', points]
    · refine ⟨'.' :: ascii, by simp [List.mapM_cons, toAscii?_point, mapped], ?_, ?_,
        by simp [length]⟩
      · simpa [isPlain] using plain
      · rw [List.count_cons_self, List.count_cons_self, points]

theorem mapM_toAscii?_eq_none {cs : List Char} {c : Char} (mem : c ∈ cs)
    (unknown : toAscii? c = none) : cs.mapM toAscii? = none := by
  induction cs with
  | nil => cases mem
  | cons d cs ih =>
    rw [List.mapM_cons]
    rcases List.mem_cons.1 mem with rfl | mem
    · rw [unknown]
      rfl
    · rw [ih mem]
      cases toAscii? d <;> rfl

/-! ## Plain numerals -/

theorem count_point_of_digits {cs : List Char} (digits : ∀ c ∈ cs, c.isDigit = true) :
    cs.count '.' = 0 := by
  refine List.count_eq_zero.2 fun mem => ?_
  cases digits '.' mem

/-- Plain numerals start with digits, after which they end or there is a point. -/
theorem exists_digits {cs : List Char} (plain : ∀ c ∈ cs, isPlain c = true) :
    ∃ digits back, cs = digits ++ back ∧ digits.count '.' = 0 ∧
      cs.takeWhile Char.isDigit = digits ∧ cs.dropWhile Char.isDigit = back ∧
      (back = [] ∨ ∃ rest, back = '.' :: rest) := by
  obtain ⟨digits, back, split, all, front, after⟩ := exists_takeWhile Char.isDigit cs
  refine ⟨digits, back, split, ?_, front, after, ?_⟩
  · exact count_point_of_digits fun c mem => List.all_eq_true.1 all c mem
  · cases back with
    | nil => exact .inl rfl
    | cons x rest =>
      have other := List.head?_dropWhile_not Char.isDigit cs
      rw [after] at other
      rcases isPlain_iff.1 (plain x (by simp [split])) with digit | rfl
      · rw [List.head?_cons] at other
        exact absurd digit (Bool.eq_false_iff.1 other)
      · exact .inr ⟨rest, rfl⟩

theorem readMagnitude?_whole {cs : List Char} (after : cs.dropWhile Char.isDigit = []) :
    readMagnitude? cs = if (cs.takeWhile Char.isDigit).isEmpty then none
      else some (nearest (digitsValue (cs.takeWhile Char.isDigit)) 0) := by
  simp [readMagnitude?, after, readExponent?]

theorem readMagnitude?_point {cs rest : List Char}
    (after : cs.dropWhile Char.isDigit = '.' :: rest) :
    readMagnitude? cs =
      if (cs.takeWhile Char.isDigit).isEmpty && (rest.takeWhile Char.isDigit).isEmpty then none
      else (readExponent? (rest.dropWhile Char.isDigit)).map fun exponent =>
        nearest (digitsValue (cs.takeWhile Char.isDigit ++ rest.takeWhile Char.isDigit))
          (exponent - (rest.takeWhile Char.isDigit).length) := by
  simp only [readMagnitude?, after]

/-- Plain numerals are read if they have no more than one point, and a digit. -/
theorem readMagnitude?_isSome_iff {cs : List Char} (plain : ∀ c ∈ cs, isPlain c = true) :
    (readMagnitude? cs).isSome = true ↔ cs.count '.' ≤ 1 ∧ cs.count '.' < cs.length := by
  obtain ⟨whole, back, split, pointless, front, after, rfl | ⟨rest, rfl⟩⟩ := exists_digits plain
  · rw [readMagnitude?_whole after, front, split, List.append_nil, pointless]
    cases whole <;> simp
  · have others : ∀ c ∈ rest, isPlain c = true := fun c mem => plain c (by simp [split, mem])
    obtain ⟨fraction, tail, split', pointless', front', after', last⟩ := exists_digits others
    rw [readMagnitude?_point after, front, front', after', split, split']
    simp only [List.count_append, List.count_cons_self, pointless, pointless']
    rcases last with rfl | ⟨more, rfl⟩
    · rw [List.append_nil, readExponent?, Option.map_some]
      cases whole with
      | nil => cases fraction <;> simp
      | cons a whole =>
        simp only [List.isEmpty_cons, Bool.false_and, Bool.false_eq_true, if_false,
          Option.isSome_some, List.length_append, List.length_cons, List.count_nil, true_iff]
        omega
    · cases whole <;> cases fraction <;> simp [readExponent?]

theorem toLower_plain {c : Char} (plain : isPlain c = true) : c.toLower = c := by
  rcases isPlain_iff.1 plain with digit | rfl
  · obtain ⟨low, high⟩ := ascii_isDigit_iff.1 digit
    have upper : ¬ (c.val ≥ 'A'.val ∧ c.val ≤ 'Z'.val) := by
      rintro ⟨large, _⟩
      have large : 65 ≤ c.toNat := UInt32.le_iff_toNat_le.1 large
      omega
    exact dif_neg upper
  · decide

/-- No word for a number is made of digits and points. -/
theorem readUnsigned?_plain {cs : List Char} (plain : ∀ c ∈ cs, isPlain c = true) :
    readUnsigned? cs = readMagnitude? cs := by
  have lower : cs.map Char.toLower = cs := by
    rw [List.map_congr_left fun c mem => toLower_plain (plain c mem), List.map_id']
  have other : ∀ word : String, word.toList.any (!isPlain ·) = true → String.ofList cs ≠ word := by
    rintro word strange rfl
    obtain ⟨c, mem, strange⟩ := List.any_eq_true.1 strange
    rw [String.toList_ofList] at mem
    rw [plain c mem] at strange
    cases strange
  rw [readUnsigned?, lower, if_neg, if_neg (other "nan" (by decide))]
  simp [other "inf" (by decide), other "infinity" (by decide)]

/-! ## Reading a number -/

theorem trimWhere_eq_self {p : Char → Bool} {cs : List Char} (bare : ∀ c ∈ cs, p c = false) :
    Text.trimWhere p cs = cs := by
  have kept : ∀ {cs : List Char}, (∀ c ∈ cs, p c = false) → cs.dropWhile p = cs := by
    intro cs bare
    cases cs with
    | nil => rfl
    | cons c cs => rw [List.dropWhile_cons, bare c List.mem_cons_self, if_neg Bool.false_ne_true]
  rw [Text.trimWhere, kept bare, kept fun c mem => bare c (List.mem_reverse.1 mem),
    List.reverse_reverse]

theorem dropUnderscores?_eq_some {cs : List Char} (bare : ∀ c ∈ cs, c ≠ '_')
    (afterDigit : Bool) : dropUnderscores? afterDigit cs = some cs := by
  induction cs generalizing afterDigit with
  | nil => rfl
  | cons c cs ih =>
    rw [dropUnderscores?, ih fun d mem => bare d (List.mem_cons_of_mem _ mem)]
    · rfl
    · exact bare c List.mem_cons_self

theorem read?_isSome {s : String} {ascii : List Char}
    (mapped : s.toList.mapM toAscii? = some ascii)
    (bare : ∀ a ∈ ascii, isPadding a = false ∧ a ≠ '_') :
    (read? s).isSome = (readUnsigned? (takeSign ascii).2).isSome := by
  have dropped := dropUnderscores?_eq_some (fun a mem => (bare a mem).2) false
  rw [read?, mapped]
  simp only [Option.bind_eq_bind, Option.bind_some, trimWhere_eq_self fun a mem => (bare a mem).1,
    dropped]
  cases readUnsigned? (takeSign ascii).2 <;> rfl

theorem plain_facts {c : Char} (h : isPlain c = true) :
    isPadding c = false ∧ c ≠ '_' ∧ isSignCharacter c = false := by
  have numeral : isNumeral c = true :=
    isNumeral_iff.2 ((isPlain_iff.1 h).imp_left Text.isDigit_of_ascii)
  refine ⟨?_, ?_, (numeral_facts numeral).2.2.2.1⟩
  · have other : ∀ d ∈ [' ', '\t', '\n', '\r', '\x0b', '\x0c'], c ≠ d :=
      ne_of_class h (by decide)
    simpa [isPadding, and_assoc] using other
  · have other : ∀ d ∈ ['_'], c ≠ d := ne_of_class h (by decide)
    exact other _ List.mem_cons_self

/-- Nothing or a sign, in front of numerals. -/
def IsSign (sign : List Char) : Prop := sign = [] ∨ sign = ['+'] ∨ sign = ['-']

theorem isSign_singleton {c : Char} (h : isSignCharacter c = true) : IsSign [c] := by
  rcases isSignCharacter_iff.1 h with rfl | rfl
  · exact .inr (.inl rfl)
  · exact .inr (.inr rfl)

theorem takeSign_append {sign ascii : List Char} (signs : IsSign sign)
    (plain : ∀ a ∈ ascii, isPlain a = true) : (takeSign (sign ++ ascii)).2 = ascii := by
  rcases signs with rfl | rfl | rfl
  · cases ascii with
    | nil => rfl
    | cons a ascii =>
      have unsigned := (plain_facts (plain a List.mem_cons_self)).2.2
      simp only [isSignCharacter, Bool.or_eq_false_iff, decide_eq_false_iff_not] at unsigned
      rw [List.nil_append, takeSign]
      · exact fun _ h => unsigned.2 (List.cons.inj h).1
      · exact fun _ h => unsigned.1 (List.cons.inj h).1
  · rfl
  · rfl

theorem mapM_sign {sign : List Char} (signs : IsSign sign) :
    sign.mapM toAscii? = some sign ∧ ∀ a ∈ sign, isPadding a = false ∧ a ≠ '_' := by
  rcases signs with rfl | rfl | rfl
  · exact ⟨rfl, by simp⟩
  · exact ⟨rfl, by simp [isPadding]⟩
  · exact ⟨rfl, by simp [isPadding]⟩

/-- Among decimal digits and points there is a digit if not all of them are points. -/
theorem exists_decimal_iff {numerals : List Char} (all : ∀ c ∈ numerals, isNumeral c = true)
    (decimal : ∀ c ∈ numerals, isDigit c = true → isDecimal c = true) :
    (∃ c ∈ numerals, isDecimal c = true) ↔ numerals.count '.' < numerals.length := by
  constructor
  · rintro ⟨c, mem, digit⟩
    refine Nat.lt_of_le_of_ne List.count_le_length fun same => ?_
    rw [← List.count_eq_length.1 same c mem, point_not_decimal] at digit
    cases digit
  · intro fewer
    have other : ¬ ∀ c ∈ numerals, '.' = c := fun same =>
      Nat.ne_of_lt fewer (List.count_eq_length.2 same)
    obtain ⟨c, mem, digit⟩ : ∃ c ∈ numerals, '.' ≠ c := by simpa using other
    refine ⟨c, mem, decimal c mem ?_⟩
    exact (isNumeral_iff.1 (all c mem)).resolve_right digit.symm

/-- The numerals that are read are the readable ones, with or without a sign. -/
theorem read?_isSome_iff {s : String} {sign numerals : List Char}
    (text : s.toList = sign ++ numerals) (signs : IsSign sign)
    (all : ∀ c ∈ numerals, isNumeral c = true) : (read? s).isSome = true ↔ Readable numerals := by
  by_cases decimal : ∀ c ∈ numerals, isDigit c = true → isDecimal c = true
  · obtain ⟨ascii, mapped, plain, points, length⟩ := mapM_toAscii? all decimal
    obtain ⟨kept, bare⟩ := mapM_sign signs
    have whole : s.toList.mapM toAscii? = some (sign ++ ascii) := by
      rw [text, List.mapM_append, kept, mapped]
      rfl
    rw [read?_isSome whole, takeSign_append signs plain, readUnsigned?_plain plain,
      readMagnitude?_isSome_iff plain, readable_iff, exists_decimal_iff all decimal, points, length]
    · exact ⟨fun ⟨point, digit⟩ => ⟨digit, point, decimal⟩,
        fun ⟨digit, point, _⟩ => ⟨point, digit⟩⟩
    · intro a mem
      rcases List.mem_append.1 mem with mem | mem
      · exact bare a mem
      · exact ⟨(plain_facts (plain a mem)).1, (plain_facts (plain a mem)).2.1⟩
  · have foreign : ∃ c ∈ numerals, isDigit c = true ∧ isDecimal c = false := by
      simpa using decimal
    obtain ⟨c, mem, digit, other⟩ := foreign
    have unread : read? s = none := by
      rw [read?, mapM_toAscii?_eq_none (by rw [text]; exact List.mem_append_right _ mem)
        (toAscii?_not_decimal digit other)]
      rfl
    rw [unread]
    constructor
    · intro h
      cases h
    · intro readable
      exact absurd readable.decimal decimal

end Decimal

/-! ## Numbers in a text -/

open Decimal (IsSign)

theorem Cut.numerals {before next : Option Char} {cs : List Char}
    (cut : Cut before next .number cs) :
    ∃ sign numerals, cs = sign ++ numerals ∧ IsSign sign ∧ numerals ≠ [] ∧
      ∀ c ∈ numerals, isNumeral c = true := by
  generalize same : Kind.number = kind at cut
  cases cut with
  | number numerals => exact ⟨[], _, rfl, .inl rfl, by simp, numerals⟩
  | signed isSign _ numerals =>
    exact ⟨[_], _, rfl, Decimal.isSign_singleton isSign, by simp, numerals⟩
  | identifier letters => cases same
  | symbol known loose =>
    subst same
    exact (symbol?_ne_number known).elim
  | illegal gap unknown numeral letter => cases same

theorem operandValue_number (group : GroupValue) (lexeme : String) (span : Span) (m : Memory) :
    operandValue group (.leaf .number lexeme span) m =
      match Decimal.read? lexeme with
      | some x => (.ok x, m)
      | none =>
          (.error ⟨.unreadableNumber lexeme, (Token.leaf .number lexeme span).position?⟩, m) := by
  rw [operandValue]
  cases Decimal.read? lexeme <;> rfl

/-- A number in a text is a run of digits and points, with or without a sign. It has a
value if the run has a decimal digit, at most one point and no other digits; otherwise
its literal cannot be read as a number, and nothing else is wrong with it. -/
theorem numbers_of_scan {code : String} {tokens : List Token} (scanned : scan code = .ok tokens)
    {lexeme : String} {span : Span} (mem : .leaf .number lexeme span ∈ tokens) :
    ∃ sign numerals, lexeme.toList = sign ++ numerals ∧ IsSign sign ∧ numerals ≠ [] ∧
      (∀ c ∈ numerals, c = '.' ∨ isDigit c = true) ∧
      ∀ group m,
        ((∃ x, operandValue group (.leaf .number lexeme span) m = (.ok x, m)) ↔
          Readable numerals) ∧
        (¬ Readable numerals → operandValue group (.leaf .number lexeme span) m =
          (.error ⟨.unreadableNumber lexeme, some span.start⟩, m)) := by
  obtain ⟨before, next, kind, shape, cut⟩ := cut_of_scan scanned mem
  cases shape
  obtain ⟨sign, numerals, text, signs, nonempty, all⟩ := cut.numerals
  have here : (Token.leaf .number lexeme span).position? = some span.start :=
    if_pos ((inOrder_of_scan scanned).isKnown mem)
  have readable : (Decimal.read? lexeme).isSome = true ↔ Readable numerals :=
    Decimal.read?_isSome_iff text signs all
  refine ⟨sign, numerals, text, signs, nonempty, fun c hc => (isNumeral_iff.1 (all c hc)).symm,
    fun group m => ?_⟩
  rw [operandValue_number, here, ← readable]
  cases Decimal.read? lexeme with
  | some x => exact ⟨⟨fun _ => rfl, fun _ => ⟨x, rfl⟩⟩, fun h => absurd rfl h⟩
  | none =>
    refine ⟨⟨?_, ?_⟩, fun _ => rfl⟩
    · rintro ⟨x, h⟩
      cases h
    · intro h
      cases h

/-- The sign and the spaces around it do not count; a superscript is a digit, but not a
decimal one. -/
theorem numbers_of_scan_mixed :
    ∃ tokens, scan "- 1 .5*2²" = .ok tokens ∧
      .leaf .number "-1.5" ⟨0, 5⟩ ∈ tokens ∧ .leaf .number "2²" ⟨7, 8⟩ ∈ tokens ∧
      (∃ x, operandValue (evaluateWithin 0) (.leaf .number "-1.5" ⟨0, 5⟩) ⟨.empty, []⟩ =
        (.ok x, ⟨.empty, []⟩)) ∧
      operandValue (evaluateWithin 0) (.leaf .number "2²" ⟨7, 8⟩) ⟨.empty, []⟩ =
        (.error ⟨.unreadableNumber "2²", some 7⟩, ⟨.empty, []⟩) := by
  have scanned : scan "- 1 .5*2²" = .ok [.leaf .number "-1.5" ⟨0, 5⟩,
      .leaf (.operator .times) "*" ⟨6, 6⟩, .leaf .number "2²" ⟨7, 8⟩] := by
    decide +kernel
  refine ⟨_, scanned, by simp, by simp, ?_, ?_⟩
  · obtain ⟨sign, numerals, text, signs, _, all, value⟩ :=
      @numbers_of_scan _ _ scanned "-1.5" ⟨0, 5⟩ (by simp)
    refine (value _ _).1.2 ?_
    rcases signs with rfl | rfl | rfl
    · cases text
      exact absurd (all '-' List.mem_cons_self) (by decide)
    · cases text
    · cases text
      decide
  · obtain ⟨sign, numerals, text, signs, _, _, value⟩ :=
      @numbers_of_scan _ _ scanned "2²" ⟨7, 8⟩ (by simp)
    refine (value _ _).2 ?_
    rcases signs with rfl | rfl | rfl
    · cases text
      decide
    · cases text
    · cases text

end Calculator
