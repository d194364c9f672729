import Mathlib.Data.List.Induction
import Calculator.Session
import Calculator.Proofs.Footprint

/-!
# Environments and their history

The variables of a calculator are what was assigned to them since they were last
forgotten, whatever else happened.

* `Environment.replay`: assignments made one after the other. A name gets the value of
  the last one (`get?_replay`), and the names stand in the order of the first ones
  (`names_ofList`).
* `evaluateWithin_replays`: an evaluation leaves the environment that its completed
  assignments make of the one before, also if it ends in a fault.
* `Operation`, `history`: what can be done with an environment, and the assignments
  that count at the end.
* `environment_history`: values and names after any operations.
-/

namespace Calculator

namespace Environment

/-! ## Assignments one after the other -/

/-- The environment after some assignments. -/
def replay (env : Environment) (assignments : List (String × Float)) : Environment :=
  assignments.foldl (fun env b => env.set b.1 b.2) env

variable (env : Environment) (assignments : List (String × Float))

theorem replay_append (more : List (String × Float)) :
    env.replay (assignments ++ more) = (env.replay assignments).replay more :=
  List.foldl_append

theorem get?_replay (name : String) :
    (env.replay assignments).get? name =
      (assignments.reverse.lookup name).or (env.get? name) := by
  induction assignments generalizing env with
  | nil => rfl
  | cons b rest ih =>
    have first : (env.set b.1 b.2).get? name = ([b].lookup name).or (env.get? name) := by
      rw [get?_set, List.lookup_cons]
      by_cases same : name = b.1
      · simp [same]
      · have other : (name == b.1) = false := beq_false_of_ne same
        simp [same, other]
    show ((env.set b.1 b.2).replay rest).get? name = _
    rw [ih, first, ← Option.or_assoc, ← List.lookup_append, List.reverse_cons]

/-- The value of the last assignment to a name counts. -/
theorem get?_ofList (name : String) :
    (ofList assignments).get? name = assignments.reverse.lookup name :=
  (get?_replay empty assignments name).trans Option.or_none

/-- The names stand in the order of the first assignments to them. -/
theorem names_ofList :
    (ofList assignments).names = (assignments.map Prod.fst).eraseDups := by
  induction assignments using List.reverseRecOn with
  | nil => rfl
  | append_singleton front b ih =>
    have last : ofList (front ++ [b]) = (ofList front).set b.1 b.2 := replay_append empty front [b]
    rw [last, names_set, ih, List.map_append, List.eraseDups_append]
    by_cases known : b.1 ∈ front.map Prod.fst
    · simp [List.removeAll, known]
    · simp [List.removeAll, List.eraseDups_cons, known]

theorem get?_eq_none_iff {name : String} :
    (ofList assignments).get? name = none ↔ ∀ x, (name, x) ∉ assignments := by
  rw [get?_ofList, List.lookup_eq_none_iff]
  constructor
  · intro other x mem
    simpa using other (name, x) (List.mem_reverse.2 mem)
  · rintro never ⟨known, x⟩ mem
    refine bne_iff_ne.2 ?_
    rintro rfl
    exact never x (List.mem_reverse.1 mem)

theorem contains_iff_get? {name : String} : env.contains name = true ↔ env.get? name ≠ none :=
  Option.isSome_iff_ne_none

theorem replay_extends : env.Extends (assignments.map Prod.fst) (env.replay assignments) := by
  induction assignments using List.reverseRecOn with
  | nil => exact .refl env
  | append_singleton front b ih =>
    have last : env.replay (front ++ [b]) = (env.replay front).set b.1 b.2 :=
      replay_append env front [b]
    have part : ∀ name ∉ (front ++ [b]).map Prod.fst, name ∉ front.map Prod.fst :=
      fun name outside inside => outside (by simp [List.mem_map.1 inside])
    rw [last]
    exact .trans ⟨ih.names, fun name outside => ih.kept name (part name outside)⟩
      (.set _ b.2 (by simp))

end Environment

/-! ## The journal of an evaluation -/

/-- The memory afterwards is what the assignments that were noted make of the one
before. -/
def Memory.Replays (m m' : Memory) : Prop :=
  ∃ made, m' = ⟨m.environment.replay made, m.journal ++ made⟩

theorem Memory.Replays.refl (m : Memory) : m.Replays m := ⟨[], by rw [List.append_nil]; rfl⟩

theorem Memory.Replays.trans {m m' m'' : Memory} (h : m.Replays m') (h' : m'.Replays m'') :
    m.Replays m'' := by
  obtain ⟨made, rfl⟩ := h
  obtain ⟨more, rfl⟩ := h'
  exact ⟨made ++ more, by rw [Environment.replay_append, List.append_assoc]⟩

theorem Memory.Replays.assign (m : Memory) (name : String) (x : Float) :
    m.Replays (m.assign name x) := ⟨[(name, x)], rfl⟩

open Evaluation

theorem evaluateWithin_replays (limit : Nat) (family : Bracket) (tokens : List Token)
    (m : Memory) : m.Replays (evaluateWithin limit family tokens m).2 := by
  have tracks : Tracks (fun _ => True) (fun _ => True) (Moves Memory.Replays) :=
    tracks_moves .refl .trans fun x m _ => .assign m _ x
  exact evaluateWithin_tracks tracks limit family
    (contentsUse_of (fun _ _ => trivial) fun _ _ => trivial) m

/-- An evaluation leaves what its completed assignments make of the environment. -/
theorem evaluateWithin_environment (limit : Nat) (family : Bracket) (tokens : List Token)
    (env : Environment) :
    ((evaluateWithin limit family tokens).outcome env).environment =
      env.replay ((evaluateWithin limit family tokens).outcome env).memory.journal := by
  obtain ⟨made, memory⟩ := evaluateWithin_replays limit family tokens ⟨env, []⟩
  have left : ((evaluateWithin limit family tokens).outcome env).memory =
      ⟨env.replay made, made⟩ := memory
  rw [Outcome.environment, left]

theorem calculateWithin_environment (limits : Limits) (code : String) (env : Environment) :
    (calculateWithin limits code env).environment =
      env.replay (calculateWithin limits code env).memory.journal := by
  unfold calculateWithin
  split
  · exact evaluateWithin_environment _ _ _ env
  · rfl

/-- An assignment is completed if the list after its mark has a value. It is noted then,
and stays whatever comes after it. -/
theorem evaluateWithin_completes (limit : Nat) (family : Bracket) (name mark : String)
    (span place : Span) (t : Token) (rest : List Token) (m : Memory) :
    evaluateWithin (limit + 1) family
        (.leaf .identifier name span :: .leaf .assign mark place :: t :: rest) m =
      match evaluateWithin limit .round (t :: rest) m with
      | (.ok x, m') =>
          (.ok (family.apply x), ⟨m'.environment.set name x, m'.journal ++ [(name, x)]⟩)
      | (.error fault, m') => (.error fault, m') := by
  show (evaluateWithin limit .round (t :: rest) >>= (fun x => do
    modify (·.assign name x)
    return x) >>= fun x => pure (family.apply x)) m = _
  rw [bind_apply, bind_apply]
  rcases evaluateWithin limit .round (t :: rest) m with ⟨_ | x, m'⟩ <;> rfl

/-! ## Operations in any order -/

/-- What can be done with an environment. -/
inductive Operation where
  | set (name : String) (value : Float)
  | clear
  | calculate (code : String)

namespace Operation

variable (limits : Limits) (env : Environment)

/-- The assignments that an operation completes, those of a calculation also if it ends in
a fault. -/
def assignments : Operation → List (String × Float)
  | set name value => [(name, value)]
  | clear => []
  | calculate code => (calculateWithin limits code env).memory.journal

def perform : Operation → Environment
  | set name value => env.set name value
  | clear => .empty
  | calculate code => (calculateWithin limits code env).environment

theorem perform_eq {operation : Operation} (keeps : operation ≠ clear) :
    operation.perform limits env = env.replay (operation.assignments limits env) := by
  cases operation with
  | set name value => rfl
  | clear => exact absurd rfl keeps
  | calculate code => exact calculateWithin_environment limits code env

end Operation

section

variable (limits : Limits)

/-- The environment after operations on an empty one. -/
def Environment.ofOperations (operations : List Operation) : Environment :=
  operations.foldl (Operation.perform limits) .empty

/-- The assignments since the last clearing, after those in the past. -/
def historyFrom (env : Environment) (past : List (String × Float)) :
    List Operation → List (String × Float)
  | [] => past
  | .clear :: rest => historyFrom .empty [] rest
  | operation :: rest =>
      historyFrom (operation.perform limits env) (past ++ operation.assignments limits env) rest

/-- The assignments that count after operations on an empty environment. -/
def history (operations : List Operation) : List (String × Float) :=
  historyFrom limits .empty [] operations

namespace Environment

theorem foldl_perform (past : List (String × Float)) (operations : List Operation) :
    operations.foldl (Operation.perform limits) (ofList past) =
      ofList (historyFrom limits (ofList past) past operations) := by
  induction operations generalizing past with
  | nil => rfl
  | cons operation rest ih =>
    by_cases cleared : operation = .clear
    · subst cleared
      exact ih []
    · have step : operation.perform limits (ofList past) =
          ofList (past ++ operation.assignments limits (ofList past)) :=
        (Operation.perform_eq limits _ cleared).trans (replay_append empty past _).symm
      rw [List.foldl_cons, historyFrom, step]
      · exact ih _
      · exact cleared

theorem ofOperations_eq (operations : List Operation) :
    ofOperations limits operations = ofList (history limits operations) :=
  foldl_perform limits [] operations

theorem ofOperations_extends (operations : List Operation) {operation : Operation}
    (keeps : operation ≠ .clear) :
    (ofOperations limits operations).Extends
      ((operation.assignments limits (ofOperations limits operations)).map Prod.fst)
      (ofOperations limits (operations ++ [operation])) := by
  have step : ofOperations limits (operations ++ [operation]) =
      operation.perform limits (ofOperations limits operations) := List.foldl_append
  rw [step, Operation.perform_eq limits _ keeps]
  exact replay_extends _ _

end Environment

/-- An environment after any operations is told by their history. A name has the value
of the last assignment to it, none if there was no assignment, and it is known if it has
a value. The names are those that were assigned to, each once, in the order of the first
assignments. Whatever does not clear the environment keeps all names at their places, and
the values of those that it does not assign to. An assignment in a calculation counts from
the moment on when the list after its mark has a value: then the name is set, and the
assignment is noted after those before it. Nothing else is. -/
theorem environment_history (operations : List Operation) :
    (∀ name, (Environment.ofOperations limits operations).get? name =
      (history limits operations).reverse.lookup name) ∧
    (∀ name, (Environment.ofOperations limits operations).get? name = none ↔
      ∀ x, (name, x) ∉ history limits operations) ∧
    (∀ name, (Environment.ofOperations limits operations).contains name = true ↔
      (Environment.ofOperations limits operations).get? name ≠ none) ∧
    ((Environment.ofOperations limits operations).names =
        ((history limits operations).map Prod.fst).eraseDups ∧
      (Environment.ofOperations limits operations).names.Nodup) ∧
    (∀ operation : Operation, operation ≠ .clear →
      (Environment.ofOperations limits operations).names <+:
        (Environment.ofOperations limits (operations ++ [operation])).names ∧
      ∀ name ∉ (operation.assignments limits
          (Environment.ofOperations limits operations)).map Prod.fst,
        (Environment.ofOperations limits (operations ++ [operation])).get? name =
          (Environment.ofOperations limits operations).get? name) ∧
    (∀ limit family name mark span place t rest m,
      evaluateWithin (limit + 1) family
          (.leaf .identifier name span :: .leaf .assign mark place :: t :: rest) m =
        match evaluateWithin limit .round (t :: rest) m with
        | (.ok x, m') =>
            (.ok (family.apply x), ⟨m'.environment.set name x, m'.journal ++ [(name, x)]⟩)
        | (.error fault, m') => (.error fault, m')) ∧
    (∀ limit family tokens m, assignsAny tokens = false →
      (evaluateWithin limit family tokens m).2 = m) := by
  have whole := Environment.ofOperations_eq limits operations
  refine ⟨fun name => ?_, fun name => ?_, fun name => ?_, ⟨?_, ?_⟩, fun operation keeps => ?_,
    evaluateWithin_completes,
    fun limit family _ m unassigned => evaluateWithin_memory limit family unassigned m⟩
  · rw [whole]
    exact Environment.get?_ofList _ name
  · rw [whole]
    exact Environment.get?_eq_none_iff _
  · exact Environment.contains_iff_get? _
  · rw [whole]
    exact Environment.names_ofList _
  · exact (Environment.ofOperations limits operations).distinct
  · have frame := Environment.ofOperations_extends limits operations keeps
    exact ⟨frame.names, frame.kept⟩

end

/-- Assignments before and after a clearing, one of them in a calculation that fails. -/
theorem environment_history_failed :
    let operations : List Operation := [.set "a" 1.0, .clear, .calculate "x = 2",
      .calculate "(y = x) + z", .calculate "x = 3"]
    history .standard operations = [("x", 2.0), ("y", 2.0), ("x", 3.0)] ∧
      (Environment.ofOperations .standard operations).get? "a" = none ∧
      (Environment.ofOperations .standard operations).get? "x" = some 3.0 ∧
      (Environment.ofOperations .standard operations).get? "y" = some 2.0 ∧
      (Environment.ofOperations .standard operations).names = ["x", "y"] := by
  intro operations
  have made : history .standard operations = [("x", 2.0), ("y", 2.0), ("x", 3.0)] := by
    decide +kernel
  obtain ⟨value, -, -, ⟨names, -⟩, -⟩ := environment_history .standard operations
  refine ⟨made, ?_, ?_, ?_, ?_⟩
  · rw [value, made]
    decide
  · rw [value, made]
    decide
  · rw [value, made]
    decide
  · rw [names, made]
    decide

end Calculator
