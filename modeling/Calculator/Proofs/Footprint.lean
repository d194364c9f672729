import Calculator.Proofs.Limits

/-!
# What an evaluation reads and writes

The names in a tree bound what its evaluation has to do with the environment.

* `namesAll`, `targetsAll`: the names in a tree and those that stand in front of an
  assignment mark.
* `ContentsUse`: which names are looked up and which are assigned to when the contents
  of a group are evaluated.
* `Evaluation.Tracks`: what holds of looking up and assigning those names and of
  sequences holds of the evaluation (`evaluateWithin_tracks`).
* `evaluate_footprint`: the result depends on the names in the tree only, and nothing
  but their targets is changed.
-/

namespace Calculator

/-! ## Names in a tree -/

mutual

/-- The names in a token, from left to right. -/
def Token.names : Token → List String
  | .leaf .identifier name _ => [name]
  | .leaf _ _ _ | .pointer _ _ _ => []
  | .group _ tokens _ => namesAll tokens

def namesAll : List Token → List String
  | [] => []
  | t :: rest => t.names ++ namesAll rest

end

/-- The name that stands in front of an assignment mark, if the token is one. -/
def Token.targetBefore : Token → List Token → List String
  | .leaf .identifier name _, .leaf .assign _ _ :: _ => [name]
  | _, _ => []

mutual

/-- The names in a token that an assignment mark stands after. -/
def Token.targets : Token → List String
  | .leaf _ _ _ | .pointer _ _ _ => []
  | .group _ tokens _ => targetsAll tokens

def targetsAll : List Token → List String
  | [] => []
  | t :: rest => t.targetBefore rest ++ t.targets ++ targetsAll rest

end

mutual

/-- Whether there is an assignment mark in a token. -/
def Token.assigns : Token → Bool
  | .leaf kind _ _ => kind = .assign
  | .pointer _ _ _ => false
  | .group _ tokens _ => assignsAny tokens

def assignsAny : List Token → Bool
  | [] => false
  | t :: rest => t.assigns || assignsAny rest

end

mutual

theorem Token.targets_of_assigns : (t : Token) → t.assigns = false → t.targets = []
  | .leaf _ _ _, _ | .pointer _ _ _, _ => rfl
  | .group _ tokens _, h => targetsAll_of_assignsAny tokens h

theorem targetsAll_of_assignsAny : (ts : List Token) → assignsAny ts = false → targetsAll ts = []
  | [], _ => rfl
  | t :: rest, h => by
    rw [assignsAny, Bool.or_eq_false_iff] at h
    have before : t.targetBefore rest = [] := by
      unfold Token.targetBefore
      split
      · cases h.2
      · rfl
    rw [targetsAll, before, t.targets_of_assigns h.1, targetsAll_of_assignsAny rest h.2]
    rfl

end

/-! ## Names that an evaluation uses -/

section

variable (reads writes : String → Prop)

mutual

/-- The names in a token are looked up, those that are assigned to apart. -/
def Token.Uses : Token → Prop
  | .leaf .identifier name _ => reads name
  | .leaf _ _ _ | .pointer _ _ _ => True
  | .group _ tokens _ => ContentsUse tokens

def AllUse : List Token → Prop
  | [] => True
  | t :: rest => t.Uses ∧ AllUse rest

/-- A name is assigned to at the front only; after the mark another may follow. -/
def ContentsUse : List Token → Prop
  | [] => True
  | .leaf .identifier name _ :: .leaf .assign _ _ :: t :: rest =>
      writes name ∧ ContentsUse (t :: rest)
  | t :: rest => t.Uses ∧ AllUse rest

end

end

section

variable {reads writes : String → Prop}

theorem allUse_of_contentsUse {ts : List Token} (h : ContentsUse reads writes ts)
    (other : ∀ name span lexeme place t rest,
      ts = .leaf .identifier name span :: .leaf .assign lexeme place :: t :: rest → False) :
    AllUse reads writes ts := by
  unfold ContentsUse at h
  split at h
  · trivial
  · exact absurd rfl (other _ _ _ _ _ _)
  · exact h

theorem contentsUse_of_allUse {ts : List Token} (h : AllUse reads writes ts)
    (targets : ∀ name ∈ targetsAll ts, writes name) : ContentsUse reads writes ts := by
  induction size : ts.length using Nat.strongRecOn generalizing ts with
  | _ n ih =>
    unfold ContentsUse
    split
    · trivial
    · rename_i name span lexeme place t rest
      simp only [List.length_cons] at size
      refine ⟨targets name List.mem_cons_self, ih (rest.length + 1) (by omega) h.2.2 ?_ rfl⟩
      exact fun other mem => targets other (List.mem_cons_of_mem _ mem)
    · exact h

mutual

theorem Token.uses_of : (t : Token) → (∀ name ∈ t.names, reads name) →
    (∀ name ∈ t.targets, writes name) → t.Uses reads writes
  | .leaf kind name _, hr, _ => by
    cases kind with
    | identifier => exact hr name (List.mem_singleton_self name)
    | _ => trivial
  | .pointer _ _ _, _, _ => trivial
  | .group _ tokens _, hr, hw => contentsUse_of_allUse (allUse_of tokens hr hw) hw

/-- All that is used are the names in the tokens. -/
theorem allUse_of : (ts : List Token) → (∀ name ∈ namesAll ts, reads name) →
    (∀ name ∈ targetsAll ts, writes name) → AllUse reads writes ts
  | [], _, _ => trivial
  | t :: rest, hr, hw =>
    ⟨t.uses_of (fun name h => hr name (List.mem_append_left _ h))
        (fun name h => hw name (List.mem_append_left _ (List.mem_append_right _ h))),
      allUse_of rest (fun name h => hr name (List.mem_append_right _ h))
        (fun name h => hw name (List.mem_append_right _ h))⟩

end

theorem contentsUse_of {ts : List Token} (hr : ∀ name ∈ namesAll ts, reads name)
    (hw : ∀ name ∈ targetsAll ts, writes name) : ContentsUse reads writes ts :=
  contentsUse_of_allUse (allUse_of ts hr hw) hw

end

/-! ## Properties of evaluations -/

/-- The value that a variable has at present, if it has one. -/
def lookup (name : String) : Evaluation (Option Float) := do
  return (← get).environment.get? name

theorem operandValue_name (group : GroupValue) (name : String) (span : Span) :
    operandValue group (.leaf .identifier name span) = lookup name >>= fun
      | some x => return x
      | none => throw ⟨.unboundName name, (Token.leaf .identifier name span).position?⟩ := rfl

/-- A property of computations that sequences keep, and that looking up and assigning
the given names has. -/
structure Evaluation.Tracks (reads writes : String → Prop)
    (Q : {α : Type} → Evaluation α → Prop) : Prop where
  pure : ∀ {α : Type} (a : α), Q (Pure.pure a : Evaluation α)
  throw : ∀ {α : Type} (fault : Fault), Q (MonadExcept.throw fault : Evaluation α)
  bind : ∀ {α β : Type} {e : Evaluation α} {f : α → Evaluation β},
    Q e → (∀ a, Q (f a)) → Q (e >>= f)
  read : ∀ {name : String}, reads name → Q (lookup name)
  write : ∀ {name : String} (x : Float), writes name →
    Q (modify (·.assign name x) : Evaluation Unit)

section

variable {reads writes : String → Prop} {Q : {α : Type} → Evaluation α → Prop}
  (tracks : Evaluation.Tracks reads writes Q)

include tracks

theorem Operator.apply_tracks (op : Operator) (x y : Float) (position : Option Int) :
    Q (op.apply x y position) := by
  unfold Operator.apply
  split
  · exact tracks.throw _
  · exact tracks.pure _

theorem Token.operator_tracks (t : Token) : Q t.operator := by
  unfold Token.operator
  split
  · exact tracks.pure _
  · exact tracks.throw _
  · exact tracks.throw _

theorem factorialValue_tracks (x : Float) (position : Option Int) :
    Q (factorialValue x position) := by
  unfold factorialValue
  split
  · exact tracks.pure _
  · exact tracks.throw _

variable {group : GroupValue}
  (inside : ∀ family ts, ContentsUse reads writes ts → Q (group family ts))

include inside

theorem operandValue_tracks {t : Token} (uses : t.Uses reads writes) :
    Q (operandValue group t) := by
  cases t with
  | leaf kind lexeme span =>
    cases kind with
    | number =>
      unfold operandValue
      simp only
      split
      · exact tracks.pure _
      · exact tracks.throw _
    | identifier =>
      rw [operandValue_name]
      refine tracks.bind (tracks.read uses) fun x => ?_
      split
      · exact tracks.pure _
      · exact tracks.throw _
    | _ => exact tracks.throw _
  | pointer level lexeme span => exact tracks.throw _
  | group family tokens span => exact inside family tokens uses

theorem callValue_tracks (word : String) (span : Span) {argument : Token}
    (uses : argument.Uses reads writes) : Q (callValue group word span argument) := by
  unfold callValue
  split
  · refine tracks.bind (operandValue_tracks tracks inside uses) fun x => ?_
    split
    · exact tracks.throw _
    · split
      · exact tracks.pure _
      · exact tracks.throw _
  · exact tracks.throw _

theorem steps_tracks (x : Float) {ts : List Token} (uses : AllUse reads writes ts) :
    Q (steps group x ts) := by
  fun_induction steps group x ts with
  | case1 x => exact tracks.pure _
  | case2 x slot => exact tracks.throw _
  | case3 x slot word span argument rest ih =>
    obtain ⟨_, _, operand, rest⟩ := uses
    refine tracks.bind (slot.operator_tracks tracks) fun op => ?_
    refine tracks.bind (callValue_tracks tracks inside word span operand) fun y => ?_
    exact tracks.bind (op.apply_tracks tracks x y _) fun z => ih z rest
  | case4 x slot t rest _ ih =>
    obtain ⟨_, operand, rest⟩ := uses
    refine tracks.bind (slot.operator_tracks tracks) fun op => ?_
    refine tracks.bind (operandValue_tracks tracks inside operand) fun y => ?_
    exact tracks.bind (op.apply_tracks tracks x y _) fun z => ih z rest

theorem sumValue_tracks {ts : List Token} (uses : AllUse reads writes ts) :
    Q (sumValue group ts) := by
  unfold sumValue
  split
  · exact tracks.throw _
  · rename_i word span argument rest
    obtain ⟨_, operand, others⟩ := uses
    exact tracks.bind (callValue_tracks tracks inside word span operand)
      fun x => steps_tracks tracks inside x others
  · rename_i t rest _
    split
    · exact steps_tracks tracks inside 0.0 uses
    · obtain ⟨operand, others⟩ := uses
      exact tracks.bind (operandValue_tracks tracks inside operand)
        fun x => steps_tracks tracks inside x others

theorem bodyValue_tracks {ts : List Token} (uses : ContentsUse reads writes ts) :
    Q (bodyValue group ts) := by
  unfold bodyValue
  split
  · rename_i name span lexeme place t rest
    obtain ⟨target, assigned⟩ := uses
    refine tracks.bind (inside .round (t :: rest) assigned) fun x => ?_
    exact tracks.bind (tracks.write x target) fun _ => tracks.pure x
  · rename_i t lexeme span
    obtain ⟨operand, _⟩ := allUse_of_contentsUse uses (by simp)
    exact tracks.bind (operandValue_tracks tracks inside operand)
      fun x => factorialValue_tracks tracks x _
  · rename_i unassigned _
    exact sumValue_tracks tracks inside (allUse_of_contentsUse uses unassigned)

omit inside

/-- What holds of looking up and assigning the names that are used, and of sequences,
holds of the whole evaluation. -/
theorem evaluateWithin_tracks (limit : Nat) (family : Bracket) {ts : List Token}
    (uses : ContentsUse reads writes ts) : Q (evaluateWithin limit family ts) := by
  induction limit generalizing family ts with
  | zero => exact tracks.throw _
  | succ limit ih =>
    exact tracks.bind (bodyValue_tracks tracks (fun family ts => ih family) uses)
      fun x => tracks.pure _

end

/-! ## Changes of the memory -/

/-- The memory afterwards is related to the one before. -/
def Evaluation.Moves (R : Memory → Memory → Prop) {α : Type} (e : Evaluation α) : Prop :=
  ∀ m, R m (e m).2

theorem Evaluation.tracks_moves {R : Memory → Memory → Prop} {writes : String → Prop}
    (refl : ∀ m, R m m) (trans : ∀ {m m' m''}, R m m' → R m' m'' → R m m'')
    (assign : ∀ {name} (x m), writes name → R m (m.assign name x)) :
    Tracks (fun _ => True) writes (Moves R) where
  pure _ := refl
  throw _ := refl
  read _ := refl
  write x target m := assign x m target
  bind {α β e f} first next m := by
    rw [bind_apply]
    have step := first m
    rcases h : e m with ⟨_ | a, m'⟩
    · rwa [h] at step
    · rw [h] at step
      exact trans step (next a m')

/-- From two memories that are related the computation comes to the same result, and
to memories that are related again. -/
def Evaluation.Respects (M : Memory → Memory → Prop) {α : Type} (e : Evaluation α) : Prop :=
  ∀ m m', M m m' → (e m).1 = (e m').1 ∧ M (e m).2 (e m').2

theorem Evaluation.tracks_respects {M : Memory → Memory → Prop} {reads writes : String → Prop}
    (lookup : ∀ {name m m'}, reads name → M m m' →
      m.environment.get? name = m'.environment.get? name)
    (assign : ∀ {name m m'} (x), writes name → M m m' →
      M (m.assign name x) (m'.assign name x)) :
    Tracks reads writes (Respects M) where
  pure _ _ _ h := ⟨rfl, h⟩
  throw _ _ _ h := ⟨rfl, h⟩
  read known m m' h := ⟨congrArg Except.ok (lookup known h), h⟩
  write x target m m' h := ⟨rfl, assign x target h⟩
  bind {α β e f} first next m m' h := by
    rw [bind_apply, bind_apply]
    obtain ⟨result, memory⟩ := first m m' h
    rcases he : e m with ⟨r, m₁⟩
    rcases he' : e m' with ⟨r', m₁'⟩
    rw [he, he'] at result memory
    obtain rfl : r = r' := result
    cases r with
    | error fault => exact ⟨rfl, memory⟩
    | ok a => exact next a m₁ m₁' memory

/-! ## The footprint -/

/-- The bindings of all other names than the given ones are the same, and so are the
places of the names; new names come after them. -/
structure Environment.Extends (changed : List String) (env env' : Environment) : Prop where
  names : env.names <+: env'.names
  kept : ∀ name ∉ changed, env'.get? name = env.get? name

namespace Environment.Extends

variable {changed : List String} {env env' env'' : Environment}

theorem refl (env : Environment) : Extends changed env env :=
  ⟨List.prefix_refl _, fun _ _ => rfl⟩

theorem trans (h : Extends changed env env') (h' : Extends changed env' env'') :
    Extends changed env env'' :=
  ⟨h.names.trans h'.names, fun name other => (h'.kept name other).trans (h.kept name other)⟩

theorem set (env : Environment) {name : String} (x : Float) (target : name ∈ changed) :
    Extends changed env (env.set name x) where
  names := by
    rw [names_set]
    split
    · exact List.prefix_refl _
    · exact List.prefix_append _ _
  kept other outside := by
    rw [get?_set, if_neg]
    rintro rfl
    exact outside target

theorem contains (h : Extends changed env env') {name : String}
    (bound : env.contains name = true) : env'.contains name = true :=
  contains_iff.2 (h.names.subset (contains_iff.1 bound))

end Environment.Extends

open Evaluation

theorem evaluateWithin_extends (limit : Nat) (family : Bracket) (tokens : List Token)
    (m : Memory) :
    m.environment.Extends (targetsAll tokens)
      (evaluateWithin limit family tokens m).2.environment := by
  have tracks : Tracks (fun _ => True) (· ∈ targetsAll tokens)
      (Moves fun m m' => m.environment.Extends (targetsAll tokens) m'.environment) :=
    tracks_moves (fun m => .refl _) (fun h h' => h.trans h') (fun x m target => .set _ x target)
  exact evaluateWithin_tracks tracks limit family
    (contentsUse_of (fun _ _ => trivial) fun _ target => target) m

theorem evaluateWithin_memory (limit : Nat) (family : Bracket) {tokens : List Token}
    (h : assignsAny tokens = false) (m : Memory) :
    (evaluateWithin limit family tokens m).2 = m := by
  have tracks : Tracks (fun _ => True) (fun _ => False) (Moves fun m m' => m' = m) :=
    tracks_moves (fun m => rfl) (fun h h' => h'.trans h) (fun x m target => target.elim)
  refine evaluateWithin_tracks tracks limit family (contentsUse_of (fun _ _ => trivial) ?_) m
  rw [targetsAll_of_assignsAny tokens h]
  exact fun _ target => nomatch target

theorem evaluateWithin_reads (limit : Nat) (family : Bracket) (tokens : List Token)
    {m m' : Memory}
    (same : ∀ name ∈ namesAll tokens, m.environment.get? name = m'.environment.get? name) :
    (evaluateWithin limit family tokens m).1 = (evaluateWithin limit family tokens m').1 ∧
      ∀ name ∈ namesAll tokens,
        (evaluateWithin limit family tokens m).2.environment.get? name =
          (evaluateWithin limit family tokens m').2.environment.get? name := by
  have tracks : Tracks (· ∈ namesAll tokens) (fun _ => True)
      (Respects fun m m' => ∀ name ∈ namesAll tokens,
        m.environment.get? name = m'.environment.get? name) := by
    refine tracks_respects (fun known same => same _ known) ?_
    intro name m m' x _ same other known
    rw [Memory.assign, Memory.assign, Environment.get?_set, Environment.get?_set,
      same other known]
  exact evaluateWithin_tracks tracks limit family
    (contentsUse_of (fun _ known => known) fun _ _ => trivial) m m' same

/-- What an evaluation reads and writes, whatever the limit on its depth is and whether
it ends with a value or not. The result is the same from all environments that agree on
the names in the tree. The names before are the first ones after it, none is unbound, and
the value of a name is changed only if an assignment mark stands after it somewhere.
Without such a mark the environment is the same. -/
theorem evaluate_footprint (limit : Nat) (family : Bracket) (tokens : List Token)
    (env : Environment) :
    let outcome := (evaluateWithin limit family tokens).outcome
    (∀ env' : Environment, (∀ name ∈ namesAll tokens, env.get? name = env'.get? name) →
      (outcome env).result = (outcome env').result ∧
      ∀ name ∈ namesAll tokens,
        (outcome env).environment.get? name = (outcome env').environment.get? name) ∧
    (env.names <+: (outcome env).environment.names ∧
      (∀ name, env.contains name = true → (outcome env).environment.contains name = true) ∧
      ∀ name ∉ targetsAll tokens, (outcome env).environment.get? name = env.get? name) ∧
    (assignsAny tokens = false → (outcome env).environment = env) := by
  intro outcome
  have frame : env.Extends (targetsAll tokens) (outcome env).environment :=
    evaluateWithin_extends limit family tokens ⟨env, []⟩
  refine ⟨fun env' same => ?_, ⟨frame.names, fun name => frame.contains, frame.kept⟩, ?_⟩
  · have agree : ∀ name ∈ namesAll tokens, (Memory.mk env []).environment.get? name =
        (Memory.mk env' []).environment.get? name := same
    exact evaluateWithin_reads limit family tokens agree
  · intro h
    exact congrArg Memory.environment (evaluateWithin_memory limit family h ⟨env, []⟩)

end Calculator
