import Columnar.Proofs.Reduction.Plan

/-!
# Plans of several expressions

The expressions of a plan share nothing but the columns their tasks read: these are the leaf columns
of all expressions, also of those that are passed through. So a plan of expressions that reduce on
their own reduces to their results side by side if no task runs or the batch has all these columns
(`reduce_of_reduce_each`), and otherwise a task stops at the first column that is missing.
-/

namespace Columnar

namespace Node

variable {b : Batch} {names others : List String} {n : Node}

/-- What an expression contributes does not depend on the columns of other expressions. -/
theorem contribution_congr (hnames : b.HasColumns names) (hothers : b.HasColumns others)
    (hsub : n.columnNames ⊆ names) (hsub' : n.columnNames ⊆ others) :
    n.contribution b names = n.contribution b others := by
  have htask : n.task b names = n.task b others := by
    unfold task
    cases b.slot n with
    | passThrough position => rfl
    | computed => exact foldBatch_congr hnames hothers hsub hsub'
  unfold contribution
  rw [htask]

theorem contribution_congr_of_position? {position : Nat}
    (hposition : b.position? n.key = some position) (names others : List String) :
    n.contribution b names = n.contribution b others := by
  unfold contribution task
  rw [slot_of_position? hposition]
  rfl

end Node

namespace Batch

variable {b : Batch} {nodes : List Node}

/-! ### One expression -/

theorem reduce_singleton_eq_ok_iff (hrows : b.numRows ≠ 0) {e : Expr} {out : Batch} :
    b.reduce ⟨[e]⟩ = .ok out ↔
      ∃ n, e.compile = .ok n ∧ ∃ output,
        n.contribution b (Text.sortNames (Node.leafColumns [n])) = .ok output ∧
          ofOutputs [output] = out := by
  cases hcompile : e.compile with
  | error failure =>
    rw [reduce_singleton_of_compile_error hcompile]
    refine iff_of_false (fun h => ?_) fun ⟨n, hn, _⟩ => ?_
    · cases h
    · cases hn
  | ok n =>
    rw [reduce_singleton_of_compile hrows hcompile, map_eq_ok_iff]
    simp only [Except.ok.injEq, exists_eq_left']

/-- Expressions that reduce on their own make a plan that compiles, and each contributes. -/
theorem exists_contributions (hrows : b.numRows ≠ 0) {plan : Plan} {outs : List Batch}
    (heach : List.Forall₂ (fun e out => b.reduce ⟨[e]⟩ = .ok out) plan.expressions outs) :
    ∃ nodes outputs, plan.compile = .ok nodes ∧
      List.Forall₂
        (fun n output =>
          Node.contribution b (Text.sortNames (Node.leafColumns [n])) n = .ok output)
        nodes outputs ∧ outs = outputs.map fun output => ofOutputs [output] := by
  simp only [reduce_singleton_eq_ok_iff hrows] at heach
  obtain ⟨nodes, hnodes, heach⟩ := forall₂_comp_iff.1 heach
  obtain ⟨outputs, houtputs, houts⟩ := forall₂_comp_iff.1 heach
  refine ⟨nodes, outputs, Plan.compile_eq_ok_iff.2 hnodes, houtputs, ?_⟩
  have hmap : List.Forall₂ (· = ·) (outputs.map fun output => ofOutputs [output]) outs :=
    List.forall₂_map_left_iff.2 houts
  rw [List.forall₂_eq_eq_eq] at hmap
  exact hmap.symm

/-! ### All expressions -/

theorem exists_first_missing {names : List String} (h : ¬ b.HasColumns names) :
    ∃ name, First (fun name => b.position? name = none) (Text.sortNames names) name ∧
      ∀ other ∈ names, b.position? other = none → name ≤ other := by
  have hmissing : ¬ b.HasColumns (Text.sortNames names) := fun hcolumns =>
    h fun name hname => hcolumns name (Text.mem_sortNames.2 hname)
  obtain ⟨name, hfirst⟩ := exists_first_unknown hmissing
  refine ⟨name, hfirst, fun other hother hnone => ?_⟩
  obtain ⟨before, after, hsplit, -, hbefore⟩ := hfirst
  have hsorted := Text.pairwise_sortNames names
  rw [hsplit] at hsorted
  have hlater := (List.pairwise_cons.1 (List.pairwise_append.1 hsorted).2.1).1
  have hmem : other ∈ before ++ name :: after := hsplit ▸ Text.mem_sortNames.2 hother
  rcases List.mem_append.1 hmem with hmem | hmem
  · exact absurd hnone (hbefore other hmem)
  · rcases List.mem_cons.1 hmem with rfl | hmem
    · exact String.le_refl _
    · exact String.not_lt.1 (String.lt_asymm (hlater other hmem))

theorem reduceNodes_of_missing (hrows : b.numRows ≠ 0) {fields : List String} {name : String}
    (hcomputed : ∃ n ∈ nodes, b.position? n.key = none)
    (hfirst : First (fun name => b.position? name = none) (Text.sortNames fields) name) :
    (b.reduceNodes nodes fields).2 = .error (.unknownColumn name) := by
  have htask : ∀ n : Node, ∀ e, (n.task b (Text.sortNames fields)).2 = some e ↔
      b.position? n.key = none ∧ e = .unknownColumn name := by
    intro n e
    unfold Node.task
    cases hposition : b.position? n.key with
    | some position =>
      rw [Node.slot_of_position? hposition]
      simp [Node.runTask]
    | none =>
      rw [Node.slot_of_position?_eq_none hposition]
      change (n.foldBatch b (Text.sortNames fields)).2 = some e ↔ _
      rw [Node.foldBatch_of_unknown hfirst]
      simp [eq_comm]
  obtain ⟨n, hn, hposition⟩ := hcomputed
  obtain ⟨m, hm⟩ := exists_first (p := fun n : Node =>
    ∃ e, (n.task b (Text.sortNames fields)).2 = some e)
    ⟨n, hn, _, (htask n _).2 ⟨hposition, rfl⟩⟩
  obtain ⟨e, he⟩ := hm.holds
  obtain ⟨hposition', -⟩ := (htask m e).1 he
  exact (reduceNodes_eq_error_iff hrows).2
    (.inl ⟨m, hm, (htask m _).2 ⟨hposition', rfl⟩⟩)

/-- The results of single expressions side by side. -/
theorem flatMap_ofOutputs (outputs : List (Column × Value)) :
    (outputs.map fun output => ofOutputs [output]).flatMap columns = outputs.map Prod.fst ∧
      ((outputs.map fun output => ofOutputs [output]).flatMap rows).flatten =
        outputs.map Prod.snd := by
  induction outputs with
  | nil => exact ⟨rfl, rfl⟩
  | cons output rest ih =>
    obtain ⟨hcolumns, hrows⟩ := ih
    rw [List.map_cons, List.flatMap_cons, List.flatMap_cons, List.flatten_append, hcolumns, hrows]
    exact ⟨rfl, rfl⟩

theorem hasColumns_of_contribution (hrows : b.numRows ≠ 0) {n : Node} {fields : List String}
    (hposition : b.position? n.key = none) {output : Column × Value}
    (h : n.contribution b (Text.sortNames fields) = .ok output) : b.HasColumns fields := by
  by_contra hmissing
  obtain ⟨name, hfirst, -⟩ := exists_first_missing hmissing
  have herror := reduceNodes_of_missing hrows ⟨n, List.mem_singleton.2 rfl, hposition⟩ hfirst
  rw [reduceNodes_singleton hrows, h] at herror
  cases herror

/-- In a plan that runs no task, or whose columns the batch has, each expression contributes what it
contributes alone. -/
theorem contribution_singleton
    (hcolumns : (∀ n ∈ nodes, b.position? n.key ≠ none) ∨ b.HasColumns (Node.leafColumns nodes))
    {n : Node} (hn : n ∈ nodes) :
    n.contribution b (Text.sortNames (Node.leafColumns nodes)) =
      n.contribution b (Text.sortNames (Node.leafColumns [n])) := by
  rcases hcolumns with hpassed | hcolumns
  · obtain ⟨position, hposition⟩ := Option.ne_none_iff_exists'.1 (hpassed n hn)
    exact Node.contribution_congr_of_position? hposition _ _
  · have hown : b.HasColumns (Node.leafColumns [n]) := by
      intro name hname
      obtain ⟨m, hm, hread⟩ := Node.mem_leafColumns.1 hname
      obtain rfl := List.mem_singleton.1 hm
      exact hcolumns name (Node.mem_leafColumns.2 ⟨m, hn, hread⟩)
    exact Node.contribution_congr hcolumns.sortNames hown.sortNames
      (Node.columnNames_subset_sortNames_leafColumns hn)
      (Node.columnNames_subset_sortNames_leafColumns (List.mem_singleton.2 rfl))

/-- A plan of expressions that reduce on their own compiles. If every expression is passed through,
or the batch has every column the plan reads, its result is theirs side by side. Otherwise it fails
for the smallest column that is missing, which only expressions that are passed through have below
them. -/
theorem reduce_of_reduce_each (hrows : b.numRows ≠ 0) {plan : Plan} {outs : List Batch}
    (heach : List.Forall₂ (fun e out => b.reduce ⟨[e]⟩ = .ok out) plan.expressions outs) :
    ∃ nodes, plan.compile = .ok nodes ∧
      ((∀ n ∈ nodes, b.position? n.key ≠ none) ∨ b.HasColumns (Node.leafColumns nodes) →
        ∃ out, b.reduce plan = .ok out ∧ out.columns = outs.flatMap columns ∧
          out.rows = [(outs.flatMap rows).flatten]) ∧
      (¬ ((∀ n ∈ nodes, b.position? n.key ≠ none) ∨ b.HasColumns (Node.leafColumns nodes)) →
        ∃ name ∈ Node.leafColumns nodes, b.position? name = none ∧
          (∀ other ∈ Node.leafColumns nodes, b.position? other = none → name ≤ other) ∧
          (∀ n ∈ nodes, name ∈ n.columnNames → b.position? n.key ≠ none) ∧
          b.reduce plan = .error (.unknownColumn name)) := by
  obtain ⟨nodes, outputs, hcompile, houtputs, rfl⟩ := exists_contributions hrows heach
  have halone := mapM_eq_ok_iff.2 houtputs
  refine ⟨nodes, hcompile, fun hcolumns => ?_, fun hcolumns => ?_⟩
  · have hall := mapM_eq_ok_iff.1
      ((mapM_congr fun n hn => contribution_singleton hcolumns hn).trans halone)
    obtain ⟨hout_columns, hout_values⟩ := flatMap_ofOutputs outputs
    refine ⟨ofOutputs outputs, ?_, hout_columns.symm, ?_⟩
    · rw [reduce_eq_reduceNodes hcompile]
      exact (reduceNodes_eq_ok_iff hrows).2 ⟨outputs, hall, rfl⟩
    · rw [rows_ofOutputs, hout_values]
  · obtain ⟨hpassed, hmissing⟩ := not_or.1 hcolumns
    obtain ⟨name, hfirst, hleast⟩ := exists_first_missing hmissing
    refine ⟨name, Text.mem_sortNames.1 hfirst.mem, hfirst.holds, hleast, ?_, ?_⟩
    · intro n hn hread hposition
      obtain ⟨output, -, hok⟩ := exists_of_mapM_eq_ok halone hn
      have hown := hasColumns_of_contribution hrows hposition hok
      exact position?_eq_none_iff.1 hfirst.holds
        (hown name (Node.mem_leafColumns.2 ⟨n, List.mem_singleton.2 rfl, hread⟩))
    · rw [reduce_eq_reduceNodes hcompile]
      refine reduceNodes_of_missing hrows ?_ hfirst
      obtain ⟨n, hn⟩ := not_forall.1 hpassed
      obtain ⟨hmem, hposition⟩ := Classical.not_imp.1 hn
      exact ⟨n, hmem, not_not.1 hposition⟩

def sumAndCount : Plan := ⟨[.aggregate .sum (.column "x"), .aggregateRows .count]⟩

def sourceAndSum : Batch :=
  ⟨[⟨"x", .int64⟩, ⟨"SUM(x)", .int64⟩], [#[.int64 1, .int64 2], #[.int64 100, .int64 200]],
    #[0, 1], 2⟩

theorem reduce_sourceAndSum_sumAndCount :
    sourceAndSum.numRows ≠ 0 ∧
      ∃ outs nodes, List.Forall₂ (fun e out => sourceAndSum.reduce ⟨[e]⟩ = .ok out)
          sumAndCount.expressions outs ∧
        sumAndCount.compile = .ok nodes ∧ sourceAndSum.HasColumns (Node.leafColumns nodes) ∧
        ∃ out, sourceAndSum.reduce sumAndCount = .ok out ∧
          out.columns = outs.flatMap columns ∧ out.rows = [(outs.flatMap rows).flatten] ∧
          out.rows = [[.int64 200, .int64 2]] := by
  have hrows : sourceAndSum.numRows ≠ 0 := by decide
  have heach : List.Forall₂ (fun e out => sourceAndSum.reduce ⟨[e]⟩ = .ok out)
      sumAndCount.expressions
      [ofOutputs [(⟨"SUM(x)", .int64⟩, .int64 200)],
        ofOutputs [(⟨"COUNT(*)", .int64⟩, .int64 2)]] :=
    .cons (by rfl) (.cons (by rfl) .nil)
  obtain ⟨nodes, hnodes, hok, -⟩ := reduce_of_reduce_each hrows heach
  have hcompile : sumAndCount.compile =
      .ok [.ofAggregate .sum (.ofColumn "x"), .ofAggregateRows .count] := by rfl
  obtain rfl := Except.ok.inj (hnodes.symm.trans hcompile)
  have hcolumns : sourceAndSum.HasColumns (Node.leafColumns
      [.ofAggregate .sum (.ofColumn "x"), .ofAggregateRows .count]) := by decide
  obtain ⟨out, hout, hout_columns, hout_rows⟩ := hok (.inr hcolumns)
  refine ⟨hrows, _, _, heach, hnodes, hcolumns, out, hout, hout_columns, hout_rows, ?_⟩
  rw [hout_rows]
  rfl

def sumOnly : Batch := ⟨[⟨"SUM(x)", .int64⟩], [#[.int64 5]], #[0], 1⟩

/-- The sum is served from its column and the count needs none, but together they need the column
under the sum. -/
theorem reduce_sumOnly_sumAndCount :
    sumOnly.Reachable ∧ sumOnly.numRows ≠ 0 ∧
      (∃ outs, List.Forall₂ (fun e out => sumOnly.reduce ⟨[e]⟩ = .ok out)
        sumAndCount.expressions outs) ∧
      sumOnly.reduce sumAndCount = .error (.unknownColumn "x") ∧
      ¬ ∃ out, sumOnly.reduce sumAndCount = .ok out := by
  have hcolumns : ofColumns [⟨"SUM(x)", .int64⟩] [#[.int64 5]] = .ok sumOnly := by rfl
  have herror : sumOnly.reduce sumAndCount = .error (.unknownColumn "x") := by rfl
  refine ⟨.ofColumns hcolumns, by decide, ⟨_, .cons (by rfl) (.cons (by rfl) .nil)⟩, herror, ?_⟩
  intro hsome
  obtain ⟨out, hout⟩ := hsome
  cases herror.symm.trans hout

end Batch

end Columnar
