import Calculator.Session
import Calculator.Proofs.History
import Calculator.Proofs.Runnable

/-!
# Evaluating a tree again

A tree that has a value has it again, and the assignments in it change nothing the
second time, if none of its names is both assigned to and looked up.

* `occurrencesIn`: the names in the contents of a group, and which of them are targets
  of assignments.
* `contentsUse_of_works`: what has a value assigns to the targets and looks up the other
  names. An assignment mark with nothing after it leaves a list without a value.
* `Environment.replay_replay`: assignments made once more change nothing.
* `evaluate_again`: the second evaluation.
-/

namespace Calculator

/-! ## Occurrences of names -/

/-- A name in a tree. -/
inductive Occurrence where
  | mention (name : String)
  /-- The name stands where it is assigned to. -/
  | target (name : String)
  deriving DecidableEq, Repr

mutual

/-- The names in a token, from left to right. -/
def Token.occurrences : Token → List Occurrence
  | .leaf .identifier name _ => [.mention name]
  | .leaf _ _ _ | .pointer _ _ _ => []
  | .group _ tokens _ => occurrencesIn tokens

def occurrencesAmong : List Token → List Occurrence
  | [] => []
  | t :: rest => t.occurrences ++ occurrencesAmong rest

/-- The names in the contents of a group. A name is assigned to at the front, with an
assignment mark after it; what comes after the mark is again the contents of a group. -/
def occurrencesIn : List Token → List Occurrence
  | [] => []
  | .leaf .identifier name _ :: .leaf .assign _ _ :: rest => .target name :: occurrencesIn rest
  | t :: rest => t.occurrences ++ occurrencesAmong rest

end

theorem occurrencesIn_of_unassigned {ts : List Token}
    (unassigned : ∀ name span mark place rest,
      ts = .leaf .identifier name span :: .leaf .assign mark place :: rest → False) :
    occurrencesIn ts = occurrencesAmong ts := by
  unfold occurrencesIn
  split
  · rfl
  · exact (unassigned _ _ _ _ _ rfl).elim
  · rfl

section

variable {reads writes : String → Prop}

theorem contentsUse_of_unassigned {ts : List Token} (uses : AllUse reads writes ts)
    (unassigned : ∀ name span mark place t rest,
      ts = .leaf .identifier name span :: .leaf .assign mark place :: t :: rest → False) :
    ContentsUse reads writes ts := by
  unfold ContentsUse
  split
  · trivial
  · exact (unassigned _ _ _ _ _ _ rfl).elim
  · exact uses

/-- Mentioned names are looked up, and targets are assigned to. -/
def Occurrence.Allowed (reads writes : String → Prop) : Occurrence → Prop
  | mention name => reads name
  | target name => writes name

/-! ## Names that have been used -/

open Evaluation

theorem operator_uses {t : Token} (works : Works t.operator) : t.Uses reads writes := by
  obtain ⟨op, mark, rfl⟩ := operator_of_works works
  trivial

section

variable {group : GroupValue}
  (inside : ∀ family ts, Works (group family ts) →
    (∀ o ∈ occurrencesIn ts, o.Allowed reads writes) → ContentsUse reads writes ts)

include inside

theorem Token.uses_of_works {t : Token} (works : Works (operandValue group t))
    (allowed : ∀ o ∈ t.occurrences, o.Allowed reads writes) : t.Uses reads writes := by
  cases t with
  | leaf kind lexeme span =>
    cases kind with
    | identifier => exact allowed (.mention lexeme) (List.mem_singleton_self _)
    | _ => trivial
  | pointer level lexeme span => trivial
  | group family tokens span => exact inside family tokens works allowed

theorem uses_of_callValue {word : String} {span : Span} {argument : Token}
    (works : Works (callValue group word span argument))
    (allowed : ∀ o ∈ argument.occurrences, o.Allowed reads writes) :
    argument.Uses reads writes := by
  unfold callValue at works
  split at works
  · exact Token.uses_of_works inside works.of_bind.1 allowed
  · exact absurd works (Works.not_throw _)

theorem allUse_of_steps {x : Float} {ts : List Token} (works : Works (steps group x ts))
    (allowed : ∀ o ∈ occurrencesAmong ts, o.Allowed reads writes) :
    AllUse reads writes ts := by
  fun_induction steps group x ts with
  | case1 x => trivial
  | case2 x slot => exact absurd works (Works.not_throw _)
  | case3 x slot word span argument rest ih =>
    obtain ⟨slotted, _, works⟩ := works.of_bind
    obtain ⟨called, _, works⟩ := works.of_bind
    obtain ⟨_, z, works⟩ := works.of_bind
    have after := (List.forall_mem_append.1 (List.forall_mem_append.1 allowed).2).2
    obtain ⟨first, others⟩ := List.forall_mem_append.1 after
    exact ⟨operator_uses slotted, trivial, uses_of_callValue inside called first,
      ih z works others⟩
  | case4 x slot t rest _ ih =>
    obtain ⟨slotted, _, works⟩ := works.of_bind
    obtain ⟨operand, _, works⟩ := works.of_bind
    obtain ⟨_, z, works⟩ := works.of_bind
    obtain ⟨first, others⟩ := List.forall_mem_append.1 (List.forall_mem_append.1 allowed).2
    exact ⟨operator_uses slotted, Token.uses_of_works inside operand first, ih z works others⟩

theorem allUse_of_sumValue {ts : List Token} (works : Works (sumValue group ts))
    (allowed : ∀ o ∈ occurrencesAmong ts, o.Allowed reads writes) :
    AllUse reads writes ts := by
  unfold sumValue at works
  split at works
  · trivial
  · obtain ⟨called, x, works⟩ := works.of_bind
    have after := (List.forall_mem_append.1 allowed).2
    obtain ⟨first, others⟩ := List.forall_mem_append.1 after
    exact ⟨trivial, uses_of_callValue inside called first, allUse_of_steps inside works others⟩
  · split at works
    · exact allUse_of_steps inside works allowed
    · obtain ⟨operand, x, works⟩ := works.of_bind
      obtain ⟨first, others⟩ := List.forall_mem_append.1 allowed
      exact ⟨Token.uses_of_works inside operand first, allUse_of_steps inside works others⟩

omit inside in
/-- Nothing but an operator may stand after an operand. -/
theorem not_works_of_mark (name mark : String) (span place : Span) :
    ¬ Works (sumValue group [.leaf .identifier name span, .leaf .assign mark place]) := by
  intro works
  obtain ⟨_, x, works⟩ := works.of_bind
  exact Works.not_throw _ works

theorem contentsUse_of_bodyValue {ts : List Token} (works : Works (bodyValue group ts))
    (allowed : ∀ o ∈ occurrencesIn ts, o.Allowed reads writes) :
    ContentsUse reads writes ts := by
  unfold bodyValue at works
  split at works
  · rename_i name span mark place t rest
    obtain ⟨target, others⟩ := List.forall_mem_cons.1 allowed
    exact ⟨target, inside .round (t :: rest) works.of_bind.1 others⟩
  · rename_i t lexeme span
    have unassigned : ∀ name here mark place rest, [t, .leaf .factorial lexeme span] =
        .leaf .identifier name here :: .leaf .assign mark place :: rest → False := by simp
    rw [occurrencesIn_of_unassigned unassigned] at allowed
    have operand := Token.uses_of_works inside works.of_bind.1 (List.forall_mem_append.1 allowed).1
    exact contentsUse_of_unassigned ⟨operand, trivial, trivial⟩
      fun name here mark place _ _ => unassigned name here mark place _
  · rename_i assigned _
    have unassigned : ∀ name here mark place rest,
        ts = .leaf .identifier name here :: .leaf .assign mark place :: rest → False := by
      rintro name here mark place (_ | ⟨t, rest⟩) rfl
      · exact not_works_of_mark name mark here place works
      · exact assigned name here mark place t rest rfl
    rw [occurrencesIn_of_unassigned unassigned] at allowed
    exact contentsUse_of_unassigned (allUse_of_sumValue inside works allowed) assigned

omit inside

/-- What has a value assigns to the targets in it and looks up the other names. -/
theorem contentsUse_of_works {limit : Nat} {family : Bracket} {ts : List Token}
    (works : Works (evaluateWithin limit family ts))
    (allowed : ∀ o ∈ occurrencesIn ts, o.Allowed reads writes) :
    ContentsUse reads writes ts := by
  induction limit generalizing family ts with
  | zero => exact absurd works (Works.not_throw _)
  | succ limit ih =>
    exact contentsUse_of_bodyValue (fun _ _ => ih) works.of_bind.1 allowed

end

end

/-! ## The second evaluation -/

namespace Environment

theorem bindings_eq {bindings bindings' : List (String × Float)}
    (distinct : (bindings.map Prod.fst).Nodup)
    (names : bindings.map Prod.fst = bindings'.map Prod.fst)
    (values : ∀ name, bindings.lookup name = bindings'.lookup name) : bindings = bindings' := by
  have unbound : ∀ {name : String} {bs : List (String × Float)}, name ∉ bs.map Prod.fst →
      bs.lookup name = none := by
    intro name bs absent
    rw [List.lookup_eq_none_iff]
    intro b mem
    refine bne_iff_ne.2 ?_
    rintro rfl
    exact absent (List.mem_map_of_mem mem)
  induction bindings generalizing bindings' with
  | nil => exact (List.map_eq_nil_iff.1 names.symm).symm
  | cons b rest ih =>
    cases bindings' with
    | nil => cases names
    | cons b' rest' =>
      obtain ⟨name, x⟩ := b
      obtain ⟨name', x'⟩ := b'
      injection names with same others
      obtain rfl : name = name' := same
      obtain ⟨absent, distinct⟩ := List.nodup_cons.1 distinct
      obtain rfl : x = x' := by simpa using values name
      rw [ih distinct others]
      intro other
      by_cases here : other = name
      · rw [here, unbound absent, unbound (by rwa [← others])]
      · simpa [List.lookup_cons, beq_false_of_ne here] using values other

/-- The names and their values make up the environment. -/
theorem eq_of_get? {env env' : Environment} (names : env.names = env'.names)
    (values : ∀ name, env.get? name = env'.get? name) : env = env' :=
  Environment.ext (bindings_eq env.distinct names values)

theorem names_replay {env : Environment} {assignments : List (String × Float)}
    (known : ∀ b ∈ assignments, b.1 ∈ env.names) : (env.replay assignments).names = env.names := by
  induction assignments generalizing env with
  | nil => rfl
  | cons b rest ih =>
    have first : (env.set b.1 b.2).names = env.names := by
      rw [names_set, if_pos (known b List.mem_cons_self)]
    have others : ∀ c ∈ rest, c.1 ∈ (env.set b.1 b.2).names := fun c mem => by
      rw [first]
      exact known c (List.mem_cons_of_mem _ mem)
    exact (ih others).trans first

/-- Assignments made once more change nothing. -/
theorem replay_replay (env : Environment) (assignments : List (String × Float)) :
    (env.replay assignments).replay assignments = env.replay assignments := by
  refine eq_of_get? (names_replay fun b mem => ?_) fun name => ?_
  · rw [← contains_iff, contains_iff_get?, get?_replay]
    intro none
    have absent := List.lookup_eq_none_iff.1 (Option.or_eq_none_iff.1 none).1
    exact bne_iff_ne.1 (absent b (List.mem_reverse.2 mem)) rfl
  · rw [get?_replay, get?_replay, ← Option.or_assoc, Option.or_self]

end Environment

open Evaluation

/-- From environments that agree on the names that are looked up, an evaluation comes to
the same result and completes the same assignments. -/
theorem evaluateWithin_repeats {reads writes : String → Prop} {ts : List Token}
    (uses : ContentsUse reads writes ts) (limit : Nat) (family : Bracket) {m m' : Memory}
    (same : ∀ name, reads name → m.environment.get? name = m'.environment.get? name)
    (journals : m.journal = m'.journal) :
    (evaluateWithin limit family ts m).1 = (evaluateWithin limit family ts m').1 ∧
      (evaluateWithin limit family ts m).2.journal =
        (evaluateWithin limit family ts m').2.journal := by
  have tracks : Tracks reads writes (Respects fun m m' =>
      (∀ name, reads name → m.environment.get? name = m'.environment.get? name) ∧
        m.journal = m'.journal) := by
    refine tracks_respects (fun known same => same.1 _ known) ?_
    rintro name m m' x _ ⟨same, journals⟩
    refine ⟨fun other known => ?_, congrArg (· ++ [(name, x)]) journals⟩
    rw [Memory.assign, Memory.assign, Environment.get?_set, Environment.get?_set,
      same other known]
  obtain ⟨result, _, journal⟩ :=
    evaluateWithin_tracks tracks limit family uses m m' ⟨same, journals⟩
  exact ⟨result, journal⟩

theorem evaluateWithin_keeps {writes : String → Prop} {ts : List Token}
    (uses : ContentsUse (fun _ => True) writes ts) (limit : Nat) (family : Bracket) (m : Memory)
    {name : String} (other : ¬ writes name) :
    (evaluateWithin limit family ts m).2.environment.get? name = m.environment.get? name := by
  have tracks : Tracks (fun _ => True) writes
      (Moves fun m m' => m'.environment.get? name = m.environment.get? name) := by
    refine tracks_moves (fun m => rfl) (fun h h' => h'.trans h) fun {target} x m written => ?_
    rw [Memory.assign, Environment.get?_set, if_neg]
    rintro rfl
    exact other written
  exact evaluateWithin_tracks tracks limit family uses m

/-- A tree that has a value within some limit, evaluated again in the environment that it
left: the value is the same, and so are the environment and the order of its names, if no
name is both a target of an assignment in the tree and mentioned elsewhere in it. -/
theorem evaluate_again (limit : Nat) (family : Bracket) (tokens : List Token)
    (env : Environment) {x : Float}
    (value : ((evaluateWithin limit family tokens).outcome env).result = .ok x)
    (apart : ∀ name, .target name ∈ occurrencesIn tokens →
      .mention name ∉ occurrencesIn tokens) :
    let outcome := (evaluateWithin limit family tokens).outcome
    (outcome (outcome env).environment).result = .ok x ∧
      (outcome (outcome env).environment).environment = (outcome env).environment := by
  intro outcome
  have works : Works (evaluateWithin limit family tokens) :=
    ⟨⟨env, []⟩, x, (outcome env).memory, Prod.ext value rfl⟩
  have uses : ContentsUse (.mention · ∈ occurrencesIn tokens) (.target · ∈ occurrencesIn tokens)
      tokens := contentsUse_of_works works (by rintro (name | name) mem; exacts [mem, mem])
  have assigns : ContentsUse (fun _ => True) (.target · ∈ occurrencesIn tokens) tokens :=
    contentsUse_of_works works (by rintro (name | name) mem; exacts [trivial, mem])
  have same : ∀ name, .mention name ∈ occurrencesIn tokens →
      (Memory.mk (outcome env).environment []).environment.get? name =
        (Memory.mk env []).environment.get? name := fun name mentioned =>
    evaluateWithin_keeps assigns limit family ⟨env, []⟩ fun target => apart name target mentioned
  obtain ⟨result, journal⟩ := evaluateWithin_repeats uses limit family same rfl
  have again : (outcome (outcome env).environment).memory.journal =
      (outcome env).memory.journal := journal
  have left : ∀ env, (outcome env).environment = env.replay (outcome env).memory.journal :=
    evaluateWithin_environment limit family tokens
  refine ⟨result.trans value, ?_⟩
  calc (outcome (outcome env).environment).environment
      = (outcome env).environment.replay (outcome env).memory.journal := by rw [left, again]
    _ = (outcome env).environment := by
      rw [left env]
      exact Environment.replay_replay env _

theorem evaluate_again_nested :
    let name (word : String) : Token := .leaf .identifier word .unknown
    let mark : Token := .leaf .assign "=" .unknown
    let tokens := [name "x", mark,
      .group .round [name "y", mark, .leaf .number "3" .unknown] .unknown,
      .leaf (.operator .plus) "+" .unknown, .group .absolute [name "y", mark, name "a"] .unknown]
    let env := Environment.ofList [("a", -2.0)]
    (evaluate .round tokens env).result = .ok 5.0 ∧
      (evaluate .round tokens (evaluate .round tokens env).environment).result = .ok 5.0 ∧
      (evaluate .round tokens (evaluate .round tokens env).environment).environment =
        (evaluate .round tokens env).environment := by
  intro name mark tokens env
  have value : (evaluate .round tokens env).result = .ok 5.0 := by decide +kernel
  have found : occurrencesIn tokens =
      [.target "x", .target "y", .target "y", .mention "a"] := rfl
  refine ⟨value, evaluate_again _ .round tokens env value fun word target mention => ?_⟩
  rw [found] at target mention
  obtain rfl : word = "a" := by simpa using mention
  revert target
  decide

end Calculator
