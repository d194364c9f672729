import Calculator.Text.Quoted
import Calculator.Decimal.Shortest

/-!
# Environments

The variables of a calculator, in the order in which they were first assigned.

* `Environment.set`: a new name goes to the end, a known one keeps its place.
* `get?_set`: after an assignment the name has the new value, and every other
  name the value it had.
* `names_set`: the names after an assignment.
-/

namespace Calculator

/-- Bindings of names to values; no name has two. -/
@[ext]
structure Environment where
  bindings : List (String × Float)
  distinct : (bindings.map Prod.fst).Nodup
  deriving Repr

namespace Environment

def empty : Environment := ⟨[], List.nodup_nil⟩

/-- Binds a name in a list of bindings. -/
def put (name : String) (value : Float) : List (String × Float) → List (String × Float)
  | [] => [(name, value)]
  | (known, old) :: rest =>
      if known = name then (known, value) :: rest else (known, old) :: put name value rest

theorem put_names (name : String) (value : Float) (bindings : List (String × Float)) :
    (put name value bindings).map Prod.fst =
      if name ∈ bindings.map Prod.fst then bindings.map Prod.fst
      else bindings.map Prod.fst ++ [name] := by
  induction bindings with
  | nil => rfl
  | cons b rest ih =>
    by_cases h : b.1 = name
    · simp [put, h]
    · by_cases m : name ∈ rest.map Prod.fst
      · rw [if_pos m] at ih; simp_all [put]
      · rw [if_neg m] at ih
        have : ¬ name = b.1 := fun e => h e.symm
        simp_all [put]

/-- The variable gets the value. -/
def set (env : Environment) (name : String) (value : Float) : Environment where
  bindings := put name value env.bindings
  distinct := by
    rw [put_names]
    split
    · exact env.distinct
    · rename_i h
      rw [List.nodup_append]
      refine ⟨env.distinct, by simp, ?_⟩
      intro a ha b hb e
      rw [List.mem_singleton] at hb
      exact h (hb ▸ e ▸ ha)

/-- The value of a variable, if it has one. -/
def get? (env : Environment) (name : String) : Option Float := env.bindings.lookup name

def contains (env : Environment) (name : String) : Bool := (env.get? name).isSome

/-- The variables in the order of their first assignment. -/
def names (env : Environment) : List String := env.bindings.map Prod.fst

/-- The variables assigned one after the other. -/
def ofList (assignments : List (String × Float)) : Environment :=
  assignments.foldl (fun env b => env.set b.1 b.2) empty

/-- All bindings in one line. -/
def describe (env : Environment) : String :=
  "Environment(\x7b" ++
    ", ".intercalate (env.bindings.map fun b => Text.quote b.1 ++ ": " ++ Decimal.text b.2) ++
    "\x7d)"

/-! ## Laws -/

theorem get?_set (env : Environment) (name other : String) (value : Float) :
    (env.set name value).get? other = if other = name then some value else env.get? other := by
  show (put name value env.bindings).lookup other = _
  unfold get?
  induction env.bindings with
  | nil => simp [put, List.lookup_cons]; split <;> simp_all
  | cons b rest ih =>
    obtain ⟨known, old⟩ := b
    by_cases h : known = name
    · by_cases e : other = name
      · simp [put, h, e]
      · have : (other == name) = false := by simp [e]
        simp [put, h, e, List.lookup_cons, this]
    · by_cases e : other = known
      · simp [put, h, e]
      · have : (other == known) = false := by simp [e]
        simp [put, h, List.lookup_cons, this, ih]

theorem names_set (env : Environment) (name : String) (value : Float) :
    (env.set name value).names = if name ∈ env.names then env.names else env.names ++ [name] :=
  put_names name value env.bindings

theorem contains_iff {env : Environment} {name : String} :
    env.contains name = true ↔ name ∈ env.names := by
  unfold contains get? names
  induction env.bindings with
  | nil => simp
  | cons b rest ih =>
    rw [List.lookup_cons, List.map_cons, List.mem_cons, ← ih]
    by_cases h : name = b.1
    · simp [h]
    · have : (name == b.1) = false := beq_false_of_ne h
      simp [this, h]

end Environment

end Calculator
