import Calculator.Token
import Calculator.Function

/-!
# Precedence by grouping

A list without brackets is grouped until applying its operators from left to
right is right. The passes, from the strongest binding on:

* `bindCalls`: a function and its argument, and a factorial and its operand,
  become one group;
* `insertProducts`: neighbouring values multiply;
* `nestPowers`: in a chain of powers the right one comes first;
* `groupChains`: every chain of powers, then every chain of products, becomes one
  group, unless it is the whole list.

What is left outside groups are sums and differences. `combine` does all of it.
No pass loses a token: see `chains_flatten`.
-/

namespace Calculator

/-! ## Calls and factorials -/

/-- The group that two neighbours form: a function name with the value it is
applied to, or an operand with its factorial. -/
def bind? (held t : Token) : Option Token :=
  if t.isFactorial && held.isOperand then some (.grouping [held, t])
  else
    match held with
    | .leaf .identifier word span =>
        if (Function.called? word).isSome && t.isQuantity then
          some (.grouping [.leaf .function word span, t])
        else none
    | _ => none

/-- Binds the tokens after `held` to it as long as they can be. -/
def bindFrom (held : Token) : List Token → List Token
  | [] => [held]
  | t :: rest =>
      match bind? held t with
      | some bound => bindFrom bound rest
      | none => held :: bindFrom t rest

/-- Calls and factorials become groups. -/
def bindCalls : List Token → List Token
  | [] => []
  | t :: rest => bindFrom t rest

/-! ## Implied products -/

/-- A product that is not written in the text. -/
def impliedTimes : Token := .leaf (.operator .times) "*" .unknown

/-- Puts a product between neighbouring values. -/
def insertProducts : List Token → List Token
  | [] => []
  | t :: rest =>
      if t.isQuantity && rest.head?.any Token.isQuantity then
        t :: impliedTimes :: insertProducts rest
      else t :: insertProducts rest

/-! ## Chains -/

/-- Cuts a list into chains `operand (operator operand)*` of the given operators,
each as long as it can be, and the single tokens between them. -/
def chains (links : Token → Bool) : List Token → List (List Token)
  | [] => []
  | [t] => [[t]]
  | t :: op :: rest =>
      if t.isOperand && links op && rest.head?.any Token.isOperand then
        match chains links rest with
        | [] => [[t, op]]
        | chain :: others => (t :: op :: chain) :: others
      else [t] :: chains links (op :: rest)

/-- A single token as it is, a chain as one group. -/
def wrap (fold : List Token → List Token) : List Token → List Token
  | [t] => [t]
  | chain => [.grouping (fold chain)]

/-- Wraps the chains of a list; a chain that is the whole list stays open. -/
def groupChains (links : Token → Bool) (fold : List Token → List Token)
    (tokens : List Token) : List Token :=
  match chains links tokens with
  | [chain] => fold chain
  | parts => parts.flatMap (wrap fold)

/-- A chain of powers, with all but the first operand in a group: the power on
the right comes first. -/
def nestPowers : List Token → List Token
  | t :: op :: x :: y :: rest => [t, op, .grouping (nestPowers (x :: y :: rest))]
  | tokens => tokens

/-! ## All passes -/

/-- The operands bound, with an operator between any two. -/
def separate (tokens : List Token) : List Token := insertProducts (bindCalls tokens)

/-- Grouping by precedence. -/
def combine (tokens : List Token) : List Token :=
  groupChains Token.isProduct id (groupChains Token.isPower nestPowers (separate tokens))

/-- Whether no chain of powers in the list has more than `limit` operators. -/
def powersWithin (limit : Nat) (tokens : List Token) : Bool :=
  (chains Token.isPower (separate tokens)).all fun chain => chain.length ≤ 2 * limit + 1

theorem chains_flatten (links : Token → Bool) (tokens : List Token) :
    (chains links tokens).flatten = tokens := by
  fun_induction chains links tokens with
  | case1 => rfl
  | case2 => rfl
  | case3 t op rest linked none ih => rw [none] at ih; simp_all
  | case4 t op rest linked chain others some ih => rw [some] at ih; simp_all
  | case5 t op rest apart ih => simp [ih]

end Calculator
