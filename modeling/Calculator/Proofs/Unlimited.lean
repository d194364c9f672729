import Calculator.Proofs.Alike
import Calculator.Proofs.Nesting

/-!
# Calculations without a limit

A text has one outcome from an environment. A limit on the depth only decides whether
the outcome is reached, so nothing hangs on what a limit counts or how high it is.

* `evaluateWithin_of_le`, `parseWithin_of_le`: with a higher limit nothing changes but
  what was too deep.
* `calculateWithin_of_le`: the same of whole calculations.
* `exists_unlimited_outcome`: the outcome of a text and the depth that is enough for it.
-/

namespace Calculator

open Evaluation

/-! ## Evaluating -/

mutual

theorem Token.alike_self : (t : Token) → t.Alike Eq t
  | .leaf _ _ _ => .leaf rfl
  | .pointer _ _ _ => .pointer rfl
  | .group _ tokens _ => .group (allAlike_self tokens) rfl

theorem allAlike_self : (ts : List Token) → AllAlike Eq ts ts
  | [] => .nil
  | t :: rest => .cons t.alike_self (allAlike_self rest)

end

theorem placing_same : Placing Eq Eq where
  enclosing h := by
    rw [List.forall₂_eq_eq_eq] at h
    rw [h]
  position h := by rw [Token.position?, Token.position?, h]
  after h := by rw [Token.after?, Token.after?, h]

theorem Evaluation.compares_approximates : Compares Eq Approximates where
  pure _ := .refl _
  get := .refl _
  assign _ _ := .refl _
  throw cause _ _ same := by
    rw [same]
    exact .refl _
  bind := .bind

theorem evaluateWithin_of_le {limit limit' : Nat} (le : limit ≤ limit') (family : Bracket)
    (tokens : List Token) :
    Approximates (evaluateWithin limit family tokens) (evaluateWithin limit' family tokens) := by
  obtain ⟨more, rfl⟩ := Nat.exists_eq_add_of_le le
  exact evaluateWithin_compares placing_same compares_approximates limit more
    (fun _ _ => .of_tooDeep _) family (allAlike_self tokens)

/-! ## Reading -/

theorem parseWithin_of_le {limit limit' : Nat} (le : limit ≤ limit') (code : String) :
    parseWithin limit code = .error .tooDeep ∨
      parseWithin limit code = parseWithin limit' code := by
  by_cases nonempty : code = ""
  · subst nonempty
    exact .inr rfl
  obtain ⟨_, _, _, ⟨fault, _, refused⟩ | ⟨f, _, _, read⟩⟩ := parse_cases nonempty
  · rw [refused, refused]
    by_cases none : limit = 0
    · exact .inl (by rw [if_pos none])
    · exact .inr (by rw [if_neg none, if_neg (by omega)])
  · rw [read, read, atDepth, atDepth]
    split
    · exact .inr (by rw [if_pos (by omega)])
    · exact .inl rfl

/-! ## Calculating -/

/-- Higher limits change nothing but what was too deep. -/
theorem calculateWithin_of_le {limits limits' : Limits} (reading : limits.reading ≤ limits'.reading)
    (evaluating : limits.evaluating ≤ limits'.evaluating) (code : String) (env : Environment) :
    (calculateWithin limits code env).result = .error .tooDeep ∨
      calculateWithin limits code env = calculateWithin limits' code env := by
  unfold calculateWithin
  rcases parseWithin_of_le reading code with deep | same
  · rw [deep]
    exact .inl rfl
  · rw [← same]
    split
    · exact (evaluateWithin_of_le evaluating _ _).outcome env
    · exact .inr rfl

/-- There is depth enough for every text. -/
theorem exists_limits (code : String) (env : Environment) :
    ∃ limits, (calculateWithin limits code env).result ≠ .error .tooDeep := by
  by_cases empty : code = ""
  · subst empty
    refine ⟨⟨0, 0, 0⟩, ?_⟩
    rintro ⟨⟩
  · obtain ⟨tokens, scanned⟩ : ∃ tokens, scan code = .ok tokens := ⟨_, scan_eq_of_ne empty⟩
    let enough := 3 * (bracketDepth 0 tokens + 1) + tokens.countP Token.isPower +
      tokens.countP Token.isFactorial + tokens.countP Token.isAssign + 1
    refine ⟨⟨enough, enough, 0⟩, fun deep => ?_⟩
    obtain ⟨tokens', scanned', few⟩ := depth_of_tooDeep deep rfl
    cases scanned.symm.trans scanned'
    simp only [Nat.min_self, enough] at few
    omega

/-- A text has one outcome, and it is not that the text is too deep. Whatever the limits
are, a calculation has this outcome, or it is too deep because one of the limits is no
greater than what the brackets, powers, factorials and assignments of the text may need. -/
theorem exists_unlimited_outcome (code : String) (env : Environment) :
    ∃ outcome : Outcome, outcome.result ≠ .error .tooDeep ∧
      ∀ limits, calculateWithin limits code env = outcome ∨
        (calculateWithin limits code env).result = .error .tooDeep ∧
          ∃ tokens, scan code = .ok tokens ∧
            min limits.reading limits.evaluating ≤ 3 * (bracketDepth 0 tokens + 1) +
              tokens.countP Token.isPower + tokens.countP Token.isFactorial +
              tokens.countP Token.isAssign := by
  obtain ⟨deepest, reached⟩ := exists_limits code env
  refine ⟨_, reached, fun limits => ?_⟩
  -- both calculations are compared with one that may go deeper than either
  let higher : Limits :=
    ⟨max limits.reading deepest.reading, max limits.evaluating deepest.evaluating, 0⟩
  have whole : calculateWithin deepest code env = calculateWithin higher code env :=
    (calculateWithin_of_le (Nat.le_max_right _ _) (Nat.le_max_right _ _) code env).resolve_left
      reached
  have part : (calculateWithin limits code env).result = .error .tooDeep ∨
      calculateWithin limits code env = calculateWithin higher code env :=
    calculateWithin_of_le (Nat.le_max_left _ _) (Nat.le_max_left _ _) code env
  rcases part with deep | same
  · exact .inr ⟨deep, depth_of_tooDeep deep rfl⟩
  · exact .inl (same.trans whole.symm)

end Calculator
