import Calculator.Session
import Calculator.Proofs.Culprits
import Calculator.Proofs.Leaves

/-!
# How deep a tree is

A tree gets deeper with every bracket inside another, with every power on the right
of a power and with every factorial after a factorial. All else adds no more than two
groups to a text and to each of its brackets, however long they are.

* `depthAll_separate_le`, `depthAll_combine_le`: what the passes add to a list.
* `Forest.depthAll_resolved_le`: what they add from the inside out.
* `reachAll_le`: how deep evaluation goes in a tree.
* `depth_of_tooDeep`: how much there is in a text that is found to be too deep.
* `depth_of_parse`: the bound on the depth of the tree of a text. A text without
  brackets, powers, factorials and assignments is never too deep.
-/

namespace Calculator

/-! ## Depth of lists -/

theorem depthAll_le_iff {ts : List Token} {n : Nat} :
    depthAll ts ≤ n ↔ ∀ t ∈ ts, t.depth ≤ n := by
  induction ts with
  | nil => simp [depthAll]
  | cons t ts ih => rw [depthAll, Nat.max_le, ih, List.forall_mem_cons]

theorem depth_le_depthAll {t : Token} {ts : List Token} (mem : t ∈ ts) :
    t.depth ≤ depthAll ts :=
  depthAll_le_iff.1 (Nat.le_refl _) t mem

theorem depthAll_le_of_subset {ts us : List Token} (sub : ts ⊆ us) : depthAll ts ≤ depthAll us :=
  depthAll_le_iff.2 fun _ mem => depth_le_depthAll (sub mem)

theorem depth_grouping (ts : List Token) : (Token.grouping ts).depth = depthAll ts + 1 := by
  simp [Token.grouping, Token.depth]

theorem depth_lump_le (ts : List Token) : (lump ts).depth ≤ depthAll ts + 1 := by
  rcases ts with _ | ⟨t, _ | ⟨u, ts⟩⟩
  · simp [lump, depth_grouping]
  · simp [lump, depthAll]
  · simp [lump, depth_grouping]

/-! ## Calls, factorials and products -/

/-- A factorial puts its operand one group deeper, a call puts a value there that
nothing has been bound to before. -/
theorem depth_bind? {held t bound : Token} (h : bind? held t = some bound) :
    (t.isFactorial = true ∧ bound.depth = held.depth + 1) ∨ bound.depth = t.depth + 1 := by
  unfold bind? at h
  split at h
  · rename_i marked
    rw [Bool.and_eq_true] at marked
    cases h
    have flat : t.depth = 0 := by
      have mark := marked.1
      unfold Token.isFactorial at mark
      split at mark
      · simp [Token.depth]
      · cases mark
    exact .inl ⟨marked.1, by simp [depth_grouping, depthAll, flat]⟩
  · split at h
    · split at h
      · cases h
        exact .inr (by simp [depth_grouping, depthAll, Token.depth])
      · cases h
    · cases h

/-- What is held at the start may be deeper than the rest, as something may be bound
to it already; from there on only factorials make it deeper. -/
theorem depthAll_bindFrom_le {held : Token} {ts : List Token} {n : Nat} (first : held.depth ≤ n)
    (others : depthAll ts + 1 ≤ n) :
    depthAll (bindFrom held ts) ≤ n + ts.countP Token.isFactorial := by
  fun_induction bindFrom held ts generalizing n with
  | case1 held => simpa [depthAll] using first
  | case2 held t rest bound hb ih =>
    rw [depthAll] at others
    rw [List.countP_cons]
    -- a factorial is paid for by the count, a call by the group that `n` leaves room for
    rcases depth_bind? hb with ⟨mark, deeper⟩ | called
    · have := ih (n := n + 1) (by omega) (by omega)
      rw [if_pos mark]
      omega
    · have := ih (n := n) (by omega) (by omega)
      omega
  | case3 held t rest hb ih =>
    rw [depthAll] at others
    rw [depthAll, List.countP_cons]
    have := ih (n := n) (by omega) (by omega)
    omega

theorem depthAll_insertProducts (ts : List Token) :
    depthAll (insertProducts ts) = depthAll ts := by
  induction ts with
  | nil => simp [insertProducts]
  | cons t ts ih =>
    have implied : impliedTimes.depth = 0 := by simp [impliedTimes, Token.depth]
    rw [insertProducts]
    split <;> simp [depthAll, ih, implied]

theorem depthAll_separate_le (ts : List Token) :
    depthAll (separate ts) ≤ depthAll ts + ts.countP Token.isFactorial + 1 := by
  rw [separate, depthAll_insertProducts]
  cases ts with
  | nil => simp [bindCalls, depthAll]
  | cons t ts =>
    have bound := @depthAll_bindFrom_le t ts (depthAll (t :: ts) + 1) (by rw [depthAll]; omega)
      (by rw [depthAll]; omega)
    rw [bindCalls, List.countP_cons]
    omega

/-! ## Chains -/

theorem depthAll_of_mem_chains {links : Token → Bool} {ts c : List Token}
    (mem : c ∈ chains links ts) : depthAll c ≤ depthAll ts := by
  have sub : c ⊆ (chains links ts).flatten := fun t ht => List.mem_flatten.2 ⟨c, mem, ht⟩
  rw [chains_flatten] at sub
  exact depthAll_le_of_subset sub

/-- A chain of powers is one group deeper for each of its powers. -/
theorem depth_power_le {c : List Token} (linked : Linked Token.isPower c) :
    (lump (nestPowers c)).depth ≤ depthAll c + c.length / 2 := by
  induction linked with
  | @one t operand =>
    have alone : lump (nestPowers [t]) = t := rfl
    rw [alone, depthAll]
    omega
  | @more t op rest operand link tail ih =>
    rw [nestPowers_cons tail, lump_of_length (by simp), depth_grouping]
    simp only [depthAll, List.length_cons]
    omega

/-- A chain that is the whole list saves a group. -/
theorem depthAll_groupChains_le (links : Token → Bool) {fold : List Token → List Token}
    (single : ∀ t, fold [t] = [t]) (ts : List Token) :
    depthAll (groupChains links fold ts) ≤ depthAll (wrapped links fold ts) := by
  rcases wrapped_eq links single ts with same | ⟨_, _, _, _, _, whole, group⟩
  · rw [same]
  · simp [whole, group, depthAll, depth_grouping]

theorem depthAll_groupPowers_le (ts : List Token) :
    depthAll (groupChains Token.isPower nestPowers (separate ts)) ≤
      depthAll (separate ts) + powerDepth ts := by
  have short : ∀ c ∈ chains Token.isPower (separate ts), c.length ≤ 2 * powerDepth ts + 1 := by
    have within := (powersWithin_iff (powerDepth ts) ts).2 (Nat.le_refl _)
    simpa [powersWithin] using within
  refine Nat.le_trans (depthAll_groupChains_le _ (fun _ => rfl) _) ?_
  rw [wrapped_powers_eq, depthAll_le_iff]
  intro t mem
  obtain ⟨c, hc, rfl⟩ := List.mem_map.1 mem
  have part := depthAll_of_mem_chains hc
  have length := short c hc
  rw [Function.comp_apply]
  rcases linked_of_mem_chains hc with ⟨t, rfl⟩ | linked
  · have alone : lump (nestPowers [t]) = t := rfl
    rw [alone]
    rw [depthAll] at part
    omega
  · have chain := depth_power_le linked
    omega

theorem depthAll_groupProducts_le (ts : List Token) :
    depthAll (groupChains Token.isProduct id ts) ≤ depthAll ts + 1 := by
  refine Nat.le_trans (depthAll_groupChains_le _ (fun _ => rfl) _) ?_
  rw [wrapped_products_eq, depthAll_le_iff]
  intro t mem
  obtain ⟨c, hc, rfl⟩ := List.mem_map.1 mem
  have chain := depth_lump_le c
  have part := depthAll_of_mem_chains hc
  omega

/-- One list of words gets two groups deeper, and one for each power and factorial. -/
theorem depthAll_combine_le (ts : List Token) :
    depthAll (combine ts) ≤
      depthAll ts + ts.countP Token.isPower + ts.countP Token.isFactorial + 2 := by
  have operands := depthAll_separate_le ts
  have powers := depthAll_groupPowers_le ts
  have count := powerDepth_le ts
  have products := depthAll_groupProducts_le (groupChains Token.isPower nestPowers (separate ts))
  rw [combine]
  omega

/-! ## Brackets inside brackets -/

theorem depth_of_isWord {t : Token} (word : t.isWord = true) : t.depth = 0 := by
  cases t with
  | leaf kind lexeme span => simp [Token.depth]
  | pointer level lexeme span => cases word
  | group family tokens span => cases word

/-- A bracket inside another adds three groups: its own and the two of its contents.
The powers and factorials are counted on both sides, as those inside a bracket are
no longer to be seen once it is resolved. -/
theorem Forest.depthAll_resolved_le {f : Forest} (words : ∀ t ∈ f.tokens, t.isWord = true) :
    depthAll f.resolved + f.resolved.countP Token.isPower + f.resolved.countP Token.isFactorial ≤
      3 * f.height + f.tokens.countP Token.isPower + f.tokens.countP Token.isFactorial := by
  induction f with
  | nil => simp [resolved, depthAll]
  | word t plain rest ih =>
    have flat := depth_of_isWord (words t (by simp [tokens]))
    have after := ih fun u hu => words u (by simp [tokens, hu])
    simp only [resolved, tokens, height, depthAll, List.countP_cons]
    omega
  | group family opening closing inside rest ih ih' =>
    have contents := ih fun u hu => words u (by simp [tokens, hu])
    have after := ih' fun u hu => words u (by simp [tokens, hu])
    have combined := depthAll_combine_le inside.resolved
    have powers := countP_resolved (p := Token.isPower) (fun _ _ _ => rfl) rest
    have factorials := countP_resolved (p := Token.isFactorial) (fun _ _ _ => rfl) rest
    simp only [resolved, tokens, height, depthAll, Token.depth, List.countP_cons,
      List.countP_append, Token.isPower, Token.isFactorial]
    simp only [Bool.false_eq_true, if_false]
    omega

theorem Forest.depthAll_tree_le {f : Forest} (words : ∀ t ∈ f.tokens, t.isWord = true) :
    depthAll (combine f.resolved) ≤ 3 * bracketDepth 0 f.tokens +
      f.tokens.countP Token.isPower + f.tokens.countP Token.isFactorial + 2 := by
  have brackets := bracketDepth_forest f 0 []
  have resolved := f.depthAll_resolved_le words
  have combined := depthAll_combine_le f.resolved
  rw [List.append_nil, bracketDepth] at brackets
  omega

/-! ## Evaluation -/

def Token.isAssign : Token → Bool
  | .leaf .assign _ _ => true
  | _ => false

mutual

theorem Token.reach_le (t : Token) : t.reach ≤ t.depth + t.leaves.countP Token.isAssign := by
  cases t with
  | leaf kind lexeme span => simp [Token.reach]
  | pointer level lexeme span => simp [Token.reach]
  | group family ts span =>
    have inside := reachAll_le ts
    simp only [Token.reach, Token.depth, Token.leaves]
    omega

/-- Evaluation goes one step inside for each group and for each assignment. -/
theorem reachAll_le (ts : List Token) :
    reachAll ts ≤ depthAll ts + (leavesAll ts).countP Token.isAssign := by
  match ts with
  | [] => simp [reachAll]
  | t :: rest =>
    have first := t.reach_le
    have others := reachAll_le rest
    rw [depthAll, leavesAll, List.countP_append]
    cases t with
    | leaf kind lexeme span =>
      cases kind with
      | assign =>
        have mark : [Token.leaf .assign lexeme span].countP Token.isAssign = 1 := rfl
        simp only [reachAll, Token.leaves, mark]
        omega
      | _ => simp only [reachAll]; omega
    | pointer level lexeme span => simp only [reachAll]; omega
    | group family us span => simp only [reachAll]; omega

end

/-- The assignment marks of a tree are those of its words. -/
theorem countP_isAssign_leaves {tree words : List Token} (stand : StandAll tree words)
    (placed : ∀ w ∈ words, w.span.isKnown = true) :
    (leavesAll tree).countP Token.isAssign = words.countP Token.isAssign := by
  have unchanged : Token.isAssign ∘ Token.uncalled = Token.isAssign := by
    funext t
    rcases t with ⟨kind, _, _⟩ | _ | _
    · cases kind <;> rfl
    · rfl
    · rfl
  have kept : ∀ t : Token, t.isAssign = true → t.isImplied = false ∧ t.isBracket = false := by
    intro t mark
    unfold Token.isAssign at mark
    split at mark
    · exact ⟨rfl, rfl⟩
    · cases mark
  have same := congrArg (List.countP Token.isAssign) (stand.writtenWords_eq placed)
  rw [writtenWords, List.countP_map, unchanged, List.countP_filter, List.countP_filter] at same
  calc (leavesAll tree).countP Token.isAssign
      = (leavesAll tree).countP fun t => t.isAssign && !t.isImplied := by
        refine List.countP_congr fun t _ => ?_
        cases mark : t.isAssign with
        | false => simp
        | true => simp [(kept t mark).1]
    _ = words.countP fun t => t.isAssign && !t.isBracket := same
    _ = words.countP Token.isAssign := by
        refine List.countP_congr fun t _ => ?_
        cases mark : t.isAssign with
        | false => simp
        | true => simp [(kept t mark).2]

/-! ## Texts -/

/-- Only so many brackets, powers, factorials and assignments make a text too deep. -/
theorem depth_of_tooDeep {limits : Limits} {code : String} {env : Environment} {fault : Fault}
    (h : (calculateWithin limits code env).result = .error fault)
    (deep : fault.cause = .tooDeep) :
    ∃ tokens, scan code = .ok tokens ∧
      min limits.reading limits.evaluating ≤ 3 * (bracketDepth 0 tokens + 1) +
        tokens.countP Token.isPower + tokens.countP Token.isFactorial +
        tokens.countP Token.isAssign := by
  have nonempty : code ≠ "" := by
    rintro rfl
    cases h
    cases deep
  obtain ⟨tokens, scanned, words, ⟨refusal, checked, refused⟩ | ⟨f, rfl, _, read⟩⟩ :=
    parse_cases nonempty
  · rw [calculateWithin, refused] at h
    cases h
    split at deep
    · rename_i none
      exact ⟨_, scanned, by omega⟩
    · have category := bracketFault_category checked
      rw [deep] at category
      cases category
  · refine ⟨_, scanned, ?_⟩
    have reading := f.parsing_depth_le
    have tree := Forest.depthAll_tree_le words
    by_cases fits : max f.depth (powerDepth f.resolved) ≤ limits.reading
    · have parsed := read limits.reading
      rw [atDepth, if_pos fits] at parsed
      obtain ⟨tokens', scanned', stand, _⟩ := standAll_of_parseWithin parsed
      rw [scanned] at scanned'
      cases scanned'
      have marks := countP_isAssign_leaves stand fun w hw => (inOrder_of_scan scanned).isKnown hw
      have reach := reachAll_le (combine f.resolved)
      by_contra few
      rw [calculateWithin, parsed] at h
      have outcome : (evaluateWithin limits.evaluating .round (combine f.resolved)
          ⟨env, []⟩).1 = .error fault := h
      exact evaluateWithin_genuine (by omega) _ _ outcome deep
    · omega

/-- The characters that can make a tree deeper. -/
def deepening : List Char := ['^', '!', '=', '(', ')', '[', ']']

/-- The kinds of words that can make a tree deeper. -/
def Kind.deepens : Kind → Bool
  | .operator .power | .factorial | .assign | .opening _ | .closing _ => true
  | _ => false

theorem symbol?_deepens {c : Char} {kind : Kind} (known : symbol? c = some kind)
    (deepens : kind.deepens = true) : c ∈ deepening := by
  unfold symbol? at known
  split at known <;> cases known <;> revert deepens <;> decide

theorem deepens_eq_false {code : String} {tokens : List Token} (scanned : scan code = .ok tokens)
    (shallow : ∀ c ∈ code.toList, c ∉ deepening) {kind : Kind} {lexeme : String} {span : Span}
    (mem : .leaf kind lexeme span ∈ tokens) : kind.deepens = false := by
  cases deepens : kind.deepens with
  | false => rfl
  | true =>
    obtain ⟨c, known, rfl⟩ := lexeme_of_symbol scanned mem rfl
      (by rintro rfl; cases deepens) (by rintro rfl; cases deepens) (by rintro rfl; cases deepens)
    have here : c ∈ tokens.flatMap fun t => t.lexeme.toList :=
      List.mem_flatMap.2 ⟨_, mem, by simp [Token.lexeme]⟩
    rw [eq_scanFrom_of_scan scanned, scanFrom_lexemes] at here
    exact absurd (symbol?_deepens known deepens) (shallow c (List.mem_filter.1 here).1)

theorem bracketDepth_of_unbracketed {tokens : List Token}
    (plain : ∀ t ∈ tokens, t.isBracket = false) (waiting : Nat) :
    bracketDepth waiting tokens = waiting := by
  induction tokens with
  | nil => rfl
  | cons t rest ih =>
    rw [bracketDepth_other (plain t List.mem_cons_self)]
    exact ih fun u hu => plain u (List.mem_cons_of_mem _ hu)

theorem flat_of_shallow {code : String} {tokens : List Token} (scanned : scan code = .ok tokens)
    (shallow : ∀ c ∈ code.toList, c ∉ deepening) {t : Token} (mem : t ∈ tokens) :
    t.isBracket = false ∧ t.isPower = false ∧ t.isFactorial = false ∧ t.isAssign = false := by
  cases t with
  | leaf kind lexeme span =>
    have flat := deepens_eq_false scanned shallow mem
    cases kind with
    | operator op => cases op <;> first | exact ⟨rfl, rfl, rfl, rfl⟩ | cases flat
    | _ => first | exact ⟨rfl, rfl, rfl, rfl⟩ | cases flat
  | pointer level lexeme span => exact ⟨rfl, rfl, rfl, rfl⟩
  | group family ts span => exact ⟨rfl, rfl, rfl, rfl⟩

/-- Without these characters there is nothing in a text that its depth could depend on. -/
theorem counts_of_shallow {code : String} {tokens : List Token} (scanned : scan code = .ok tokens)
    (shallow : ∀ c ∈ code.toList, c ∉ deepening) :
    bracketDepth 0 tokens = 0 ∧ tokens.countP Token.isPower = 0 ∧
      tokens.countP Token.isFactorial = 0 ∧ tokens.countP Token.isAssign = 0 := by
  have flat : ∀ t ∈ tokens, t.isBracket = false ∧ t.isPower = false ∧ t.isFactorial = false ∧
      t.isAssign = false := fun t mem => flat_of_shallow scanned shallow mem
  refine ⟨bracketDepth_of_unbracketed (fun t mem => (flat t mem).1) 0, ?_, ?_, ?_⟩
  · simpa [List.countP_eq_zero] using fun t mem => (flat t mem).2.1
  · simpa [List.countP_eq_zero] using fun t mem => (flat t mem).2.2.1
  · simpa [List.countP_eq_zero] using fun t mem => (flat t mem).2.2.2

/-- The tree of a text is no deeper than three times its brackets and the pair around
it, with one more for each power and for each factorial: its length does not count. A
text without brackets, powers, factorials and assignments is never found too deep, be
it to read, to write out or to evaluate, if the limits are greater than three. -/
theorem depth_of_parse (code : String) :
    (∀ limit tree, parseWithin limit code = .ok tree → ∃ tokens, scan code = .ok tokens ∧
      depthAll tree ≤ 3 * (bracketDepth 0 tokens + 1) + tokens.countP Token.isPower +
        tokens.countP Token.isFactorial) ∧
    ∀ limits : Limits, 3 < limits.reading → 3 < limits.evaluating → 3 ≤ limits.writing →
      (∀ c ∈ code.toList, c ∉ deepening) →
      (∀ fault, parseWithin limits.reading code = .error fault → fault.cause ≠ .tooDeep) ∧
      (∀ tree, parseWithin limits.reading code = .ok tree →
        treeTextWithin limits code = dump tree 0) ∧
      ∀ env, (traceWithin limits code env).2 = calculateWithin limits code env ∧
        ∀ fault, (calculateWithin limits code env).result = .error fault →
          fault.cause ≠ .tooDeep := by
  have bounded : ∀ limit tree, parseWithin limit code = .ok tree → ∃ tokens,
      scan code = .ok tokens ∧ depthAll tree ≤ 3 * (bracketDepth 0 tokens + 1) +
        tokens.countP Token.isPower + tokens.countP Token.isFactorial := by
    intro limit tree read
    obtain ⟨f, scanned, rfl, words⟩ := exists_forest_of_parseWithin read
    have tree := Forest.depthAll_tree_le words
    exact ⟨f.tokens, scanned, by omega⟩
  refine ⟨bounded, fun limits reading evaluating writing shallow => ?_⟩
  have evaluated : ∀ env fault, (calculateWithin limits code env).result = .error fault →
      fault.cause ≠ .tooDeep := by
    intro env fault h deep
    obtain ⟨tokens, scanned, many⟩ := depth_of_tooDeep h deep
    obtain ⟨brackets, powers, factorials, marks⟩ := counts_of_shallow scanned shallow
    omega
  have flat : ∀ tree, parseWithin limits.reading code = .ok tree →
      depthAll tree ≤ limits.writing := by
    intro tree parsed
    obtain ⟨tokens, scanned, bound⟩ := bounded limits.reading tree parsed
    obtain ⟨brackets, powers, factorials, _⟩ := counts_of_shallow scanned shallow
    omega
  refine ⟨?_, ?_, fun env => ⟨traceWithin_outcome limits code env flat, evaluated env⟩⟩
  · intro fault refused
    refine evaluated .empty fault ?_
    rw [calculateWithin, refused]
  · intro tree parsed
    simp only [treeTextWithin, parsed, if_pos (flat tree parsed)]

/-- Two factorials on one operand and a power on the right of a power, in brackets; and a
sum of products, which is one group deep. -/
theorem depth_of_parse_mixed :
    (∃ tree tokens, parse "(3!!)^2^2" = .ok tree ∧ scan "(3!!)^2^2" = .ok tokens ∧
      depthAll tree = 3 ∧ depthAll tree ≤ 3 * (bracketDepth 0 tokens + 1) +
        tokens.countP Token.isPower + tokens.countP Token.isFactorial) ∧
    ∀ fault, (calculate "1+2*3-4 x" .empty).result = .error fault → fault.cause ≠ .tooDeep := by
  have h : parse "(3!!)^2^2" = .ok [
      .group .round [
        .group .round [
          .group .round [.leaf .number "3" ⟨1, 1⟩, .leaf .factorial "!" ⟨2, 2⟩] ⟨1, 2⟩,
          .leaf .factorial "!" ⟨3, 3⟩] ⟨1, 3⟩] ⟨0, 4⟩,
      .leaf (.operator .power) "^" ⟨5, 5⟩,
      .group .round [.leaf .number "2" ⟨6, 6⟩, .leaf (.operator .power) "^" ⟨7, 7⟩,
        .leaf .number "2" ⟨8, 8⟩] ⟨6, 8⟩] := by
    decide +kernel
  obtain ⟨tokens, scanned, bound⟩ := (depth_of_parse "(3!!)^2^2").1 _ _ h
  have shallow : "1+2*3-4 x".toList.all (fun c => !deepening.contains c) = true := by decide
  obtain ⟨_, _, evaluated⟩ := (depth_of_parse "1+2*3-4 x").2 .standard (by decide) (by decide)
    (by decide) (by simpa using shallow)
  exact ⟨⟨_, tokens, h, scanned, by decide +kernel, bound⟩, (evaluated .empty).2⟩

end Calculator
