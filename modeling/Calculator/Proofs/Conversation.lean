import Calculator.Session

/-!
# What a session prints

A session is one environment taken through the lines, and what is printed is told line
by line.

* `Leaves`, `IsExpression`: the lines that end a session and those that are calculated.
* `Answered`: what is printed for a line that does not end the session, and the
  environment from then on. There is one such answer for every line
  (`reply_of_answered`, `exists_answered`).
* `Turns`: the answers to lines one after the other, a prompt before each.
* `transcript_turns`: a session prints the turns up to the line that ends it, and goes on
  from where some lines have left it.
-/

namespace Calculator

/-! ## Lines -/

/-- The line ends the session. -/
def Leaves (line : String) : Prop := Text.trim line = "quit" ∨ Text.trim line = "exit"

instance (line : String) : Decidable (Leaves line) :=
  inferInstanceAs (Decidable (Text.trim line = "quit" ∨ Text.trim line = "exit"))

/-- The text is neither blank nor a command. -/
structure IsExpression (code : String) : Prop where
  word : code ∉ ["", "quit", "exit", "vars", "clear"]
  tokens : ∀ rest, code ≠ "tokens " ++ rest

/-- The bindings of an environment by ascending name. -/
structure Environment.Lists (env : Environment) (bindings : List (String × Float)) : Prop where
  all : bindings.Perm env.bindings
  ascending : bindings.Pairwise fun a b => a.1 < b.1

/-! ## Answers -/

/-- What is printed for a text, without the blanks around it, and the environment
afterwards. -/
inductive Answered (limits : Limits) (env : Environment) :
    String → String → Environment → Prop where
  | blank : Answered limits env "" "" env
  | bindings {sorted : List (String × Float)} (lists : env.Lists sorted) :
      Answered limits env "vars"
        (String.join (sorted.map fun b => b.1 ++ " = " ++ Decimal.text b.2 ++ "\n")) env
  | clear : Answered limits env "clear" "" .empty
  | tree {code : String} {tokens : List Token}
      (parsed : parseWithin limits.reading code = .ok tokens)
      (shallow : depthAll tokens ≤ limits.writing) :
      Answered limits env ("tokens " ++ code) (dump tokens 0 ++ "\n") env
  /-- A tree that is too deep to be printed is refused. -/
  | tooDeep {code : String} {tokens : List Token}
      (parsed : parseWithin limits.reading code = .ok tokens)
      (deep : limits.writing < depthAll tokens) :
      Answered limits env ("tokens " ++ code) (Fault.tooDeep.describe code ++ "\n") env
  | noTree {code : String} {fault : Fault}
      (refused : parseWithin limits.reading code = .error fault) :
      Answered limits env ("tokens " ++ code) (fault.describe code ++ "\n") env
  | value {code : String} {x : Float} (expression : IsExpression code)
      (value : (calculateWithin limits code env).result = .ok x) :
      Answered limits env code (Decimal.text x ++ "\n")
        (calculateWithin limits code env).environment
  | fault {code : String} {fault : Fault} (expression : IsExpression code)
      (failed : (calculateWithin limits code env).result = .error fault) :
      Answered limits env code (fault.describe code ++ "\n")
        (calculateWithin limits code env).environment

theorem Environment.Lists.eq {env : Environment} {bindings bindings' : List (String × Float)}
    (h : env.Lists bindings) (h' : env.Lists bindings') : bindings = bindings' := by
  refine List.Perm.eq_of_pairwise (fun a b _ _ before after => ?_) h.ascending h'.ascending
    (h.all.trans h'.all.symm)
  exact absurd after (String.lt_asymm before)

theorem Environment.lists_mergeSort (env : Environment) :
    env.Lists (env.bindings.mergeSort fun a b => decide (a.1 ≤ b.1)) := by
  have all := List.mergeSort_perm env.bindings fun a b => decide (a.1 ≤ b.1)
  have sorted : (env.bindings.mergeSort fun a b => decide (a.1 ≤ b.1)).Pairwise
      fun a b => decide (a.1 ≤ b.1) = true := by
    refine List.pairwise_mergeSort (fun a b c before after => ?_) (fun a b => ?_) _
    · rw [decide_eq_true_iff] at before after ⊢
      exact String.le_trans before after
    · rw [Bool.or_eq_true, decide_eq_true_iff, decide_eq_true_iff]
      exact String.le_total a.1 b.1
  have apart := ((all.map Prod.fst).nodup_iff).2 env.distinct
  rw [List.Nodup, List.pairwise_map] at apart
  refine ⟨all, (sorted.and apart).imp fun {a b} h => ?_⟩
  exact Std.lt_of_le_of_ne (of_decide_eq_true h.1) h.2

/-! ## Commands -/

theorem tokensWord_begins (rest : String) : tokensWord <+: ("tokens " ++ rest).toList := by
  rw [String.toList_append]
  exact List.prefix_append _ _

/-- No other command begins with the word for trees. -/
theorem tokens_ne (rest : String) :
    "tokens " ++ rest ∉ ["", "quit", "exit", "vars", "clear"] := by
  intro mem
  have first := tokensWord_begins rest
  simp only [List.mem_cons, List.not_mem_nil, or_false] at mem
  rcases mem with h | h | h | h | h <;>
  · rw [h, ← List.isPrefixOf_iff_prefix] at first
    revert first
    decide

theorem ofLine_tokens {line rest : String} (h : Text.trim line = "tokens " ++ rest) :
    Command.ofLine line = .tokens rest := by
  have others := tokens_ne rest
  simp only [List.mem_cons, List.not_mem_nil, or_false, not_or] at others
  obtain ⟨blank, quit, exit, vars, clear⟩ := others
  have begins := List.isPrefixOf_iff_prefix.2 (tokensWord_begins rest)
  have cut : ("tokens " ++ rest).toList.drop tokensWord.length = rest.toList := by
    rw [String.toList_append]
    exact List.drop_left
  simp only [Command.ofLine, h, blank, quit, exit, vars, clear, begins, cut, or_self, if_false,
    if_true, String.ofList_toList]

theorem ofLine_expression {line : String} (h : IsExpression (Text.trim line)) :
    Command.ofLine line = .expression (Text.trim line) := by
  obtain ⟨others, apart⟩ := h
  simp only [List.mem_cons, List.not_mem_nil, or_false, not_or] at others
  obtain ⟨blank, quit, exit, vars, clear⟩ := others
  have begins : tokensWord.isPrefixOf (Text.trim line).toList = false := by
    rw [Bool.eq_false_iff, ne_eq, List.isPrefixOf_iff_prefix]
    rintro ⟨rest, same⟩
    have spelled : ("tokens " ++ String.ofList rest).toList = tokensWord ++ rest :=
      String.toList_append.trans (congrArg (tokensWord ++ ·) String.toList_ofList)
    exact apart _ (String.toList_injective (same.symm.trans spelled.symm))
  simp only [Command.ofLine, blank, quit, exit, vars, clear, begins, or_self, if_false,
    Bool.false_eq_true]

theorem ofLine_leaves {line : String} (h : Leaves line) : Command.ofLine line = .quit := by
  rcases h with h | h <;> simp [Command.ofLine, h]

/-- A line that does not end the session is a command or a text to calculate. -/
theorem cases_of_stays {line : String} (stays : ¬ Leaves line) :
    Text.trim line = "" ∨ Text.trim line = "vars" ∨ Text.trim line = "clear" ∨
      (∃ rest, Text.trim line = "tokens " ++ rest) ∨ IsExpression (Text.trim line) := by
  by_cases word : Text.trim line ∈ ["", "quit", "exit", "vars", "clear"]
  · simp only [List.mem_cons, List.not_mem_nil, or_false] at word
    rcases word with blank | quit | exit | vars | clear
    · exact .inl blank
    · exact absurd (.inl quit) stays
    · exact absurd (.inr exit) stays
    · exact .inr (.inl vars)
    · exact .inr (.inr (.inl clear))
  · by_cases tokens : ∃ rest, Text.trim line = "tokens " ++ rest
    · exact .inr (.inr (.inr (.inl tokens)))
    · exact .inr (.inr (.inr (.inr ⟨word, not_exists.1 tokens⟩)))

/-! ## Answers to lines -/

section

variable {limits : Limits}

/-- There is no other answer than the reply. -/
theorem reply_of_answered {env env' : Environment} {line output : String}
    (answered : Answered limits env (Text.trim line) output env') :
    (Command.ofLine line).replyWithin limits env = some ⟨output, env'⟩ := by
  generalize text : Text.trim line = code at answered
  cases answered with
  | blank => simp [Command.ofLine, text, Command.replyWithin]
  | bindings lists =>
    have listing := lists.eq (env.lists_mergeSort)
    simp [Command.ofLine, text, Command.replyWithin, Environment.listing, listing]
  | clear => simp [Command.ofLine, text, Command.replyWithin]
  | tree parsed shallow =>
    rw [ofLine_tokens text, Command.replyWithin, treeTextWithin, parsed]
    simp [shallow]
  | tooDeep parsed deep =>
    rw [ofLine_tokens text, Command.replyWithin, treeTextWithin, parsed]
    simp [Nat.not_le.2 deep]
  | noTree refused => rw [ofLine_tokens text, Command.replyWithin, treeTextWithin, refused]
  | value expression value =>
    subst text
    rw [ofLine_expression expression, Command.replyWithin, value]
    rfl
  | fault expression failed =>
    subst text
    rw [ofLine_expression expression, Command.replyWithin, failed]
    rfl

theorem exists_answered {line : String} (stays : ¬ Leaves line) (env : Environment) :
    ∃ output env', Answered limits env (Text.trim line) output env' := by
  rcases cases_of_stays stays with text | text | text | ⟨rest, text⟩ | expression
  · rw [text]
    exact ⟨_, _, .blank⟩
  · rw [text]
    exact ⟨_, _, .bindings env.lists_mergeSort⟩
  · rw [text]
    exact ⟨_, _, .clear⟩
  · rw [text]
    cases parsed : parseWithin limits.reading rest with
    | error fault => exact ⟨_, _, .noTree parsed⟩
    | ok tokens =>
      by_cases shallow : depthAll tokens ≤ limits.writing
      · exact ⟨_, _, .tree parsed shallow⟩
      · exact ⟨_, _, .tooDeep parsed (Nat.not_le.1 shallow)⟩
  · cases result : (calculateWithin limits (Text.trim line) env).result with
    | error fault => exact ⟨_, _, .fault expression result⟩
    | ok x => exact ⟨_, _, .value expression result⟩

end

/-! ## Turns -/

/-- What is printed for lines that do not end the session, with a prompt before each
answer, and the environment afterwards. -/
inductive Turns (limits : Limits) :
    Environment → List String → String → Environment → Prop where
  | nil (env : Environment) : Turns limits env [] "" env
  | cons {env env' env'' : Environment} {line output printed : String} {lines : List String}
      (answered : Answered limits env (Text.trim line) output env')
      (rest : Turns limits env' lines printed env'') :
      Turns limits env (line :: lines) (prompt ++ output ++ printed) env''

section

variable {limits : Limits}

theorem exists_turns {lines : List String} (stays : ∀ line ∈ lines, ¬ Leaves line)
    (env : Environment) : ∃ printed env', Turns limits env lines printed env' := by
  induction lines generalizing env with
  | nil => exact ⟨_, _, .nil env⟩
  | cons line lines ih =>
    obtain ⟨output, env', answered⟩ := exists_answered (stays line List.mem_cons_self) env
    obtain ⟨printed, env'', rest⟩ := ih (fun l mem => stays l (List.mem_cons_of_mem _ mem)) env'
    exact ⟨_, _, .cons answered rest⟩

theorem Turns.unique {env env' env'' : Environment} {lines : List String}
    {printed printed' : String} (h : Turns limits env lines printed env')
    (h' : Turns limits env lines printed' env'') : printed = printed' ∧ env' = env'' := by
  induction h generalizing printed' env'' with
  | nil env =>
    cases h'
    exact ⟨rfl, rfl⟩
  | cons answered _ ih =>
    cases h' with
    | cons answered' rest' =>
      have same := (reply_of_answered answered).symm.trans (reply_of_answered answered')
      injection same with same
      injection same with outputs environments
      subst outputs environments
      obtain ⟨rfl, rfl⟩ := ih rest'
      exact ⟨rfl, rfl⟩

/-- A session goes on from where the turns have left it. -/
theorem Turns.transcript_append {env env' : Environment} {lines : List String}
    {printed : String} (h : Turns limits env lines printed env') (more : List String) :
    transcriptWithin limits env (lines ++ more) =
      printed ++ transcriptWithin limits env' more := by
  induction h with
  | nil env => exact String.empty_append.symm
  | cons answered _ ih =>
    rw [List.cons_append, transcriptWithin, reply_of_answered answered]
    simp only [ih, String.append_assoc]

theorem transcript_leaves {line : String} (leaves : Leaves line) (env : Environment)
    (rest : List String) : transcriptWithin limits env (line :: rest) = prompt := by
  rw [transcriptWithin, ofLine_leaves leaves]
  rfl

end

end Calculator
