import Columnar.Proofs.Batch.Rows
import Columnar.Proofs.Expr.RowOrder
import Columnar.Proofs.Reduction.Composition
import Columnar.Proofs.Reduction.Join

/-!
# Plans over reordered rows

Two batches with the same columns whose rows are the same up to their order show the tasks of a plan
histories that are reordered. If the expressions read columns in aggregates only and meet no floats,
each comes to what it came to on the other batch or stops at a sum that overflows, and the plan as a
whole does too: a failure that is reported is that of a task, under every schedule.
-/

namespace Columnar

namespace Batch

variable {b b' : Batch}

theorem eq_of_withSequence {sequence : Array Nat} (h : b.withSequence sequence = .ok b') :
    b' = { b with sequence := sequence } := by
  unfold withSequence at h
  split at h
  · cases h
  · exact (Except.ok.inj h).symm

/-- What the history shows under a name is a value of the column found under it. -/
theorem WellFormed.mem_columnValues_of_get? (hb : b.WellFormed) {row : Row} (hrow : row ∈ b.history)
    {name : String} {v : Value} (hv : row.get? name = some v) :
    ∃ position, b.position? name = some position ∧ v ∈ b.columnValues position := by
  obtain ⟨values, hvalues, rfl⟩ := List.mem_map.1 hrow
  obtain ⟨physical, hphysical, rfl⟩ := List.mem_map.1 hvalues
  rw [get?_named_physicalRow hb.arrays_length, Option.map_eq_some_iff] at hv
  obtain ⟨position, hposition, rfl⟩ := hv
  refine ⟨position, hposition, ?_⟩
  rw [hb.columnValues_eq_map (lt_numColumns_of_position? hposition)]
  refine List.mem_map.2 ⟨physical, hphysical, ?_⟩
  rw [cell, hposition, Option.bind_some]

/-- The result on the other batch, or the failure of a sum that overflows in this one. -/
inductive SameOrOverflow (b : Batch) (plan : Plan) (out : Batch) :
    Except ReduceError Batch → Prop where
  | same : SameOrOverflow b plan out (.ok out)
  | overflow {e : Expr} {text : String} (he : e ∈ plan.expressions)
      (hsum : e.SumOverflows b.history text) :
      SameOrOverflow b plan out (.error (.eval (.overflow text)))

/-- Two batches of the same columns and, but for their order, the same rows. -/
structure ReorderedRows (b b' : Batch) : Prop where
  columns : b'.columns = b.columns
  rows : b.rows.Perm b'.rows

namespace ReorderedRows

variable (h : ReorderedRows b b')

include h

theorem numRows : b'.numRows = b.numRows := by
  rw [← length_rows, ← length_rows, h.rows.length_eq]

theorem position? (name : String) : b'.position? name = b.position? name := by
  unfold Batch.position?
  rw [h.columns]

theorem hasColumns {names : List String} (hnames : b.HasColumns names) : b'.HasColumns names := by
  unfold HasColumns
  rwa [h.columns]

theorem history : b.history.Perm b'.history := by
  have hnamed : b'.named = b.named := by
    unfold named
    rw [h.columns]
  unfold Batch.history
  rw [hnamed]
  exact h.rows.map _

variable (hb : b.WellFormed) (hb' : b'.WellFormed)

include hb hb'

/-- One expression contributes the same or its task meets the overflow of a sum. -/
theorem contribution {e : Expr} {n : Node} (hcompile : e.compile = .ok n)
    (haggregated : e.ColumnsAggregated) (hexact : e.Exact)
    (hvalues : ∀ row ∈ b.history, row.ExactOn e.columnNames) (hposition : b.position? n.key = none)
    (hrows : b.numRows ≠ 0) {fields : List String} (hsub : n.columnNames ⊆ Text.sortNames fields)
    {output : Column × Value} (houtput : n.contribution b (Text.sortNames fields) = .ok output) :
    n.contribution b' (Text.sortNames fields) = .ok output ∨
      ∃ text, (n.task b' (Text.sortNames fields)).2 = some (.eval (.overflow text)) ∧
        e.SumOverflows b'.history text := by
  have hnames := (hasColumns_of_contribution hrows hposition houtput).sortNames
  have hposition' := (h.position? n.key).trans hposition
  have hfresh := Expr.fresh_of_compile hcompile
  rw [Node.contribution_computed_eq_ok_iff hb hnames hsub hposition hfresh] at houtput
  obtain ⟨hok, v, hv, rfl⟩ := houtput
  rcases haggregated.reordered hexact hcompile hvalues h.history hok with
    ⟨hok', hmeaning⟩ | ⟨hfails, hsum⟩
  · rw [Node.contribution_computed_eq_ok_iff hb' (h.hasColumns hnames) hsub hposition' hfresh]
    exact .inl ⟨hok', v, hmeaning.trans hv, rfl⟩
  · refine .inr ⟨_, ?_, hsum⟩
    rw [Node.task_computed hb' (h.hasColumns hnames) hsub hposition', hfails]
    rfl

variable {plan : Plan} {nodes : List Node} (hcompile : plan.compile = .ok nodes)
  (hplan : ∀ e ∈ plan.expressions, e.ColumnsAggregated ∧ e.Exact)
  (hcomputed : ∀ n ∈ nodes, b.position? n.key = none)
  (hvalues : ∀ e ∈ plan.expressions, ∀ row ∈ b.history, row.ExactOn e.columnNames)

include hcompile hplan hcomputed hvalues

theorem contribution_of_mem (hrows : b.numRows ≠ 0) : ∀ n ∈ nodes, ∀ output,
    n.contribution b (Text.sortNames (Node.leafColumns nodes)) = .ok output →
      n.contribution b' (Text.sortNames (Node.leafColumns nodes)) = .ok output ∨
        ∃ text, (n.task b' (Text.sortNames (Node.leafColumns nodes))).2 =
            some (.eval (.overflow text)) ∧
          ∃ e ∈ plan.expressions, e.SumOverflows b'.history text := by
  intro n hn output houtput
  obtain ⟨e, he, hen⟩ := Plan.exists_of_mem_compile hcompile hn
  obtain ⟨haggregated, hexact⟩ := hplan e he
  rcases h.contribution hb hb' hen haggregated hexact (hvalues e he) (hcomputed n hn) hrows
    (Node.columnNames_subset_sortNames_leafColumns hn) houtput with hok | ⟨text, htask, hsum⟩
  · exact .inl hok
  · exact .inr ⟨text, htask, e, he, hsum⟩

/-- With nodes from a plan the reduction has the same result, or one of the tasks ends it. -/
theorem mayReduceNodes {out : Batch}
    (hout : (b.reduceNodes nodes (Node.leafColumns nodes)).2 = .ok out) {cancels : Bool}
    {result : Except ReduceError Batch}
    (hresult : b'.MayReduceNodes cancels nodes (Node.leafColumns nodes) result) :
    SameOrOverflow b' plan out result := by
  by_cases hrows : b.numRows = 0
  · have hout' : (b'.reduceNodes nodes (Node.leafColumns nodes)).2 = .ok out := by
      rw [← hout, reduceNodes_of_empty hrows, reduceNodes_of_empty (h.numRows.trans hrows)]
    exact hresult.eq_of_reduceNodes hout' ▸ .same
  have hrows' : b'.numRows ≠ 0 := h.numRows ▸ hrows
  have heach := h.contribution_of_mem hb hb' hcompile hplan hcomputed hvalues hrows
  obtain ⟨outputs, hall, rfl⟩ := (reduceNodes_eq_ok_iff hrows).1 hout
  rcases hresult.task_or_eq hrows' with ⟨n, hn, failure, htask, rfl⟩ | ⟨htasks, rfl⟩
  · obtain ⟨output, -, houtput⟩ := exists_of_mapM_eq_ok (mapM_eq_ok_iff.2 hall) hn
    rcases heach n hn output houtput with hok | ⟨text, hoverflow, e, he, hsum⟩
    · cases hok.symm.trans (Node.contribution_of_failure htask)
    · cases htask.symm.trans hoverflow
      exact .overflow he hsum
  · rw [(reduceNodes_eq_ok_iff hrows').2 ⟨outputs, ?_, rfl⟩]
    · exact .same
    · refine forall₂_imp_of_mem hall fun n hn output houtput => ?_
      rcases heach n hn output houtput with hok | ⟨text, hoverflow, -⟩
      · exact hok
      · cases (htasks n hn).symm.trans hoverflow

end ReorderedRows

/-- The order of rows matters to sums that overflow only. Take two sequences of rows of a batch that
are permutations of one another, and a plan that is computed throughout, takes no average, has no
float literal, reads columns in aggregates only and finds no float in them. If it reduces the rows
in the one order, then it has the same result on the other, or fails because a sum in one of its
expressions, over the rows in that order, overflows. No schedule gives anything else. -/
theorem reduce_withSequence_of_perm (hb : b.Reachable) {first second : Array Nat} {b₁ b₂ : Batch}
    (h₁ : b.withSequence first = .ok b₁) (h₂ : b.withSequence second = .ok b₂)
    (hperm : first.toList.Perm second.toList) {plan : Plan} {nodes : List Node}
    (hcompile : plan.compile = .ok nodes)
    (hplan : ∀ e ∈ plan.expressions, e.ColumnsAggregated ∧ e.Exact)
    (hcomputed : ∀ n ∈ nodes, b.position? n.key = none)
    (hvalues : ∀ name ∈ Node.leafColumns nodes, ∀ position, b.position? name = some position →
      ∀ v ∈ b₁.columnValues position, v.isFloat = false)
    {out : Batch} (h : b₁.reduce plan = .ok out) :
    SameOrOverflow b₂ plan out (b₂.reduce plan) ∧
      ∀ cancels result, b₂.MayReduce cancels plan result → SameOrOverflow b₂ plan out result := by
  have hb₁ := hb.wellFormed.withSequence h₁
  have hb₂ := hb.wellFormed.withSequence h₂
  obtain rfl := eq_of_withSequence h₁
  obtain rfl := eq_of_withSequence h₂
  have hreordered : ReorderedRows { b with sequence := first } { b with sequence := second } :=
    ⟨rfl, hperm.map b.physicalRow⟩
  have hcompiled := mapM_eq_ok_iff.2 (Plan.compile_eq_ok_iff.1 hcompile)
  have hexact : ∀ e ∈ plan.expressions, ∀ row ∈ history { b with sequence := first },
      row.ExactOn e.columnNames := by
    intro e he row hrow name hname v hv
    obtain ⟨position, hposition, hmem⟩ := hb₁.mem_columnValues_of_get? hrow hv
    obtain ⟨n, hn, hen⟩ := exists_of_mapM_eq_ok hcompiled he
    rw [← Expr.columnNames_of_compile hen] at hname
    exact hvalues name (Node.mem_leafColumns.2 ⟨n, hn, hname⟩) position hposition v hmem
  have hmay : ∀ cancels result, MayReduce { b with sequence := second } cancels plan result →
      SameOrOverflow { b with sequence := second } plan out result := by
    intro cancels result hresult
    rw [reduce_eq_reduceNodes hcompile] at h
    unfold MayReduce at hresult
    rw [hcompile] at hresult
    exact hreordered.mayReduceNodes hb₁ hb₂ hcompile hplan hcomputed hexact h hresult
  exact ⟨hmay false _ (mayReduce_iff_of_not_cancels.2 rfl), hmay⟩

def nearLimit : Batch :=
  ⟨[⟨"x", .int64⟩], [#[.int64 Int64.maxValue, .int64 1, .int64 (-1)]], #[0, 1, 2], 3⟩

def sumAndExtremes : Plan :=
  ⟨[.binary (.aggregate .sum (.column "x")) (.arithmetic .sub) (.aggregate .max (.column "x")),
    .aggregate .min (.column "x")]⟩

def sumAndExtremesNodes : List Node :=
  [.ofBinary (.ofAggregate .sum (.ofColumn "x")) (.arithmetic .sub)
      (.ofAggregate .max (.ofColumn "x")),
    .ofAggregate .min (.ofColumn "x")]

/-- Two orders have the same result. In the third the sum is too large after two rows. -/
theorem reduce_withSequence_nearLimit :
    nearLimit.Reachable ∧ sumAndExtremes.compile = .ok sumAndExtremesNodes ∧
      (∀ e ∈ sumAndExtremes.expressions, e.ColumnsAggregated ∧ e.Exact) ∧
      (∀ n ∈ sumAndExtremesNodes, nearLimit.position? n.key = none) ∧
      ∃ b₁ b₂ b₃ out, nearLimit.withSequence #[0, 2, 1] = .ok b₁ ∧
        nearLimit.withSequence #[2, 1, 0] = .ok b₂ ∧
        nearLimit.withSequence #[0, 1, 2] = .ok b₃ ∧
        b₁.reduce sumAndExtremes = .ok out ∧ out.rows = [[.int64 0, .int64 (-1)]] ∧
        b₂.reduce sumAndExtremes = .ok out ∧
        SameOrOverflow b₂ sumAndExtremes out (b₂.reduce sumAndExtremes) ∧
        b₃.reduce sumAndExtremes =
          .error (.eval (.overflow "SUM 9223372036854775807 + 1")) ∧
        SameOrOverflow b₃ sumAndExtremes out (b₃.reduce sumAndExtremes) := by
  have hstored : ofColumns nearLimit.columns nearLimit.arrays = .ok nearLimit := by rfl
  have hb : nearLimit.Reachable := .ofColumns hstored
  have hcompile : sumAndExtremes.compile = .ok sumAndExtremesNodes := by rfl
  have hplan : ∀ e ∈ sumAndExtremes.expressions, e.ColumnsAggregated ∧ e.Exact := by
    have hsum : (Expr.binary (.aggregate .sum (.column "x")) (.arithmetic .sub)
        (.aggregate .max (.column "x"))).ColumnsAggregated :=
      .binary _ (.aggregate _ _) (.aggregate _ _)
    have hleast : (Expr.aggregate .min (.column "x")).ColumnsAggregated := .aggregate _ _
    refine List.forall_mem_cons.2 ⟨⟨hsum, ?_, ?_⟩, List.forall_mem_singleton.2 ⟨hleast, ?_, ?_⟩⟩ <;>
      simp [Expr.subexpressions]
  have hcomputed : ∀ n ∈ sumAndExtremesNodes, nearLimit.position? n.key = none := by decide
  have hfirst : nearLimit.withSequence #[0, 2, 1] =
      .ok { nearLimit with sequence := #[0, 2, 1] } := by rfl
  have hnames : Node.leafColumns sumAndExtremesNodes = ["x"] := by rfl
  have hvalues : ∀ name ∈ Node.leafColumns sumAndExtremesNodes, ∀ position,
      nearLimit.position? name = some position →
        ∀ v ∈ columnValues { nearLimit with sequence := #[0, 2, 1] } position,
          v.isFloat = false := by
    intro name hname position hposition
    rw [hnames, List.mem_singleton] at hname
    subst hname
    obtain rfl : 0 = position := Option.some.inj hposition
    decide
  have hout : ∀ sequence ∈ [#[0, 2, 1], #[2, 1, 0]],
      reduce { nearLimit with sequence := sequence } sumAndExtremes = .ok (ofOutputs
        [(⟨"(SUM(x) - MAX(x))", .int64⟩, .int64 0), (⟨"MIN(x)", .int64⟩, .int64 (-1))]) := by
    decide +kernel
  have hoverflow : reduce { nearLimit with sequence := #[0, 1, 2] } sumAndExtremes =
      .error (.eval (.overflow "SUM 9223372036854775807 + 1")) := by
    decide +kernel
  have hall : ∀ (second : Array Nat) (b₂ : Batch), nearLimit.withSequence second = .ok b₂ →
      [0, 2, 1].Perm second.toList →
        SameOrOverflow b₂ sumAndExtremes _ (b₂.reduce sumAndExtremes) :=
    fun second b₂ h₂ hperm => (reduce_withSequence_of_perm hb hfirst h₂ hperm hcompile hplan
      hcomputed hvalues (hout _ (by simp))).1
  exact ⟨hb, hcompile, hplan, hcomputed, _, _, _, _, hfirst, by rfl, by rfl, hout _ (by simp),
    by rfl, hout _ (by simp), hall #[2, 1, 0] _ (by rfl) (by decide), hoverflow,
    hall #[0, 1, 2] _ (by rfl) (by decide)⟩

end Batch

end Columnar
