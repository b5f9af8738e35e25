import Columnar.Proofs.Batch.WellFormed
import Columnar.Proofs.Compile
import Columnar.Proofs.Node.History
import Columnar.Proofs.Reduction.Outcome

/-!
# What a plan computes

Over a batch with rows, an expression that is passed through yields the last value of the column it
names, and a computed one yields its meaning over the history of the batch or raises an error.
`contribution_eq_error_iff` and `Yields.of_contribution` say that the reduction finds exactly this
in each expression; the plan as a whole is then a list of such columns.
-/

namespace Columnar

namespace Node

/-- The output column of an expression over a batch with rows, with the value in it. -/
inductive Yields (b : Batch) (n : Node) : Column × Value → Prop where
  | passThrough {position : Nat} {source : Column} {v : Value}
      (hposition : b.position? n.key = some position)
      (hsource : b.columns[position]? = some source)
      (hv : b.rows.getLast?.bind (·[position]?) = some v) :
      Yields b n (⟨n.identity, source.dataType⟩, v)
  | computed {v : Value} (hposition : b.position? n.key = none)
      (hv : n.meaning b.history = .ok v) : Yields b n (⟨n.identity, v.dataType⟩, v)

/-- The error that a node raises over a history: at the first row it fails on, or, if it fails on
none, in its result. -/
inductive Raises (history : List Row) (n : Node) : ReduceError → Prop where
  | update {failure : Fault} (h : (feed history n).2 = some failure) :
      Raises history n failure.report
  | finalize {e : EvalError} (h : (feed history n).2 = none)
      (he : (feed history n).1.finalize = .error e) : Raises history n (.eval e)

theorem identity_feed (rows : List Row) (n : Node) : (feed rows n).1.identity = n.identity :=
  text_feed true rows n

variable {b : Batch} {names : List String} {n : Node}

theorem slot_of_position? {position : Nat} (h : b.position? n.key = some position) :
    b.slot n = .passThrough position := by
  simp only [Batch.slot, h]

theorem slot_of_position?_eq_none (h : b.position? n.key = none) : b.slot n = .computed := by
  simp only [Batch.slot, h]

theorem contribution_passThrough (hb : b.WellFormed) (hrows : b.numRows ≠ 0)
    (names : List String) {position : Nat} (hposition : b.position? n.key = some position) :
    ∃ output, n.contribution b names = .ok output ∧ n.Yields b output := by
  obtain ⟨source, hsource, -⟩ := Batch.exists_column_of_position? hposition
  obtain ⟨v, hlast, hrow⟩ := hb.exists_lastValue? hrows hsource
  refine ⟨_, ?_, .passThrough hposition hsource hrow⟩
  unfold contribution task
  rw [slot_of_position? hposition]
  change n.output b (.passThrough position) = _
  simp only [output, hsource, hlast]

theorem task_computed (hb : b.WellFormed) (hnames : b.HasColumns names)
    (hsub : n.columnNames ⊆ names) (hposition : b.position? n.key = none) :
    n.task b names = ((feed b.history n).1, (feed b.history n).2.map Fault.report) := by
  unfold task
  rw [slot_of_position?_eq_none hposition]
  exact foldBatch_eq_feed_history hb.arrays_length hnames hsub

theorem contribution_computed (hb : b.WellFormed) (hnames : b.HasColumns names)
    (hsub : n.columnNames ⊆ names) (hposition : b.position? n.key = none) :
    n.contribution b names =
      match (feed b.history n).2 with
      | some failure => .error failure.report
      | none =>
        match (feed b.history n).1.finalize with
        | .ok v => .ok (⟨n.identity, v.dataType⟩, v)
        | .error e => .error (.eval e) := by
  have htask := task_computed hb hnames hsub hposition
  cases hfailure : (feed b.history n).2 with
  | some failure =>
    refine contribution_of_failure ?_
    rw [htask, hfailure]
    rfl
  | none =>
    rw [contribution_of_task (by rw [htask, hfailure]; rfl), htask,
      slot_of_position?_eq_none hposition, ← identity_feed b.history n]
    rfl

/-- An expression contributes an error exactly when it is computed and raises that error. -/
theorem contribution_eq_error_iff (hb : b.WellFormed) (hrows : b.numRows ≠ 0)
    (hnames : b.HasColumns names) (hsub : n.columnNames ⊆ names) {e : ReduceError} :
    n.contribution b names = .error e ↔
      b.position? n.key = none ∧ n.Raises b.history e := by
  cases hposition : b.position? n.key with
  | some position =>
    obtain ⟨output, hok, -⟩ := contribution_passThrough hb hrows names hposition
    rw [hok]
    simp
  | none =>
    rw [contribution_computed hb hnames hsub hposition]
    constructor
    · intro h
      refine ⟨rfl, ?_⟩
      cases hfailure : (feed b.history n).2 with
      | some failure =>
        rw [hfailure] at h
        cases h
        exact .update hfailure
      | none =>
        rw [hfailure] at h
        cases hfinalize : (feed b.history n).1.finalize with
        | ok v =>
          rw [hfinalize] at h
          cases h
        | error d =>
          rw [hfinalize] at h
          cases h
          exact .finalize hfailure hfinalize
    · intro hraised
      obtain ⟨-, hfailure | ⟨hnone, hfinalize⟩⟩ := hraised
      · rw [hfailure]
      · rw [hnone, hfinalize]

/-- A fresh expression that is computed contributes its meaning, if it can be fed. -/
theorem contribution_computed_eq_ok_iff (hb : b.WellFormed) (hnames : b.HasColumns names)
    (hsub : n.columnNames ⊆ names) (hposition : b.position? n.key = none) (hfresh : n.fresh = n)
    {output : Column × Value} :
    n.contribution b names = .ok output ↔
      (feed b.history n).2 = none ∧ ∃ v, n.meaning b.history = .ok v ∧
        output = (⟨n.identity, v.dataType⟩, v) := by
  rw [contribution_computed hb hnames hsub hposition]
  cases hfailure : (feed b.history n).2 with
  | some failure => simp
  | none =>
    rw [finalize_feed_of_fresh hfresh hfailure]
    cases n.meaning b.history <;> simp [eq_comm]

theorem Yields.of_contribution (hb : b.WellFormed) (hrows : b.numRows ≠ 0)
    (hnames : b.HasColumns names) (hsub : n.columnNames ⊆ names) (hfresh : n.fresh = n)
    {output : Column × Value} (h : n.contribution b names = .ok output) : n.Yields b output := by
  cases hposition : b.position? n.key with
  | some position =>
    obtain ⟨yielded, hok, hyields⟩ := contribution_passThrough hb hrows names hposition
    cases hok.symm.trans h
    exact hyields
  | none =>
    obtain ⟨-, v, hv, rfl⟩ :=
      (contribution_computed_eq_ok_iff hb hnames hsub hposition hfresh).1 h
    exact .computed hposition hv

end Node

namespace Batch

variable {b : Batch} {plan : Plan} {n : Node} {nodes : List Node}

theorem reduce_eq_reduceNodes (h : plan.compile = .ok nodes) :
    b.reduce plan = (b.reduceNodes nodes (Node.leafColumns nodes)).2 := by
  simp only [reduce, h]

/-! ### One expression -/

theorem reduce_singleton_of_compile (hrows : b.numRows ≠ 0) {e : Expr}
    (hn : e.compile = .ok n) :
    b.reduce ⟨[e]⟩ =
      (n.contribution b (Text.sortNames (Node.leafColumns [n]))).map
        fun output => ofOutputs [output] := by
  have hnodes : (Plan.mk [e]).compile = .ok [n] := Plan.compile_eq_ok_iff.2 (.cons hn .nil)
  rw [reduce_eq_reduceNodes hnodes, reduceNodes_singleton hrows]

theorem reduce_singleton_of_compile_error {e : Expr} {failure : CompileError}
    (hfailure : e.compile = .error failure) (b : Batch) :
    b.reduce ⟨[e]⟩ = .error (.compile failure.message) := by
  have hplan : (Plan.mk [e]).compile = .error failure := by
    unfold Plan.compile
    rw [Expr.compileAll_eq_mapM, List.mapM_cons, hfailure]
    rfl
  simp only [reduce, hplan]

/-! ### The whole plan -/

/-- With the columns that its expressions read, a plan fails only by what one of them raises. -/
theorem reduce_eq_ok_or_raises (hb : b.WellFormed) (hrows : b.numRows ≠ 0)
    (hcompile : plan.compile = .ok nodes) (hcolumns : b.HasColumns (Node.leafColumns nodes)) :
    ((∃ out, b.reduce plan = .ok out) ↔
      ∀ n ∈ nodes, b.position? n.key = none → ∀ e, ¬ n.Raises b.history e) ∧
    ∀ e, b.reduce plan = .error e →
      ∃ n ∈ nodes, b.position? n.key = none ∧ n.Raises b.history e := by
  have hraises : ∀ n ∈ nodes, ∀ e,
      n.contribution b (Text.sortNames (Node.leafColumns nodes)) = .error e ↔
        b.position? n.key = none ∧ n.Raises b.history e := fun n hn e =>
    Node.contribution_eq_error_iff hb hrows hcolumns.sortNames
      (Node.columnNames_subset_sortNames_leafColumns hn)
  have herror : ∀ e, b.reduce plan = .error e →
      ∃ n ∈ nodes, b.position? n.key = none ∧ n.Raises b.history e := by
    intro e h
    rw [reduce_eq_reduceNodes hcompile] at h
    obtain ⟨n, hn, hcontribution⟩ := exists_contribution_of_reduceNodes hrows h
    exact ⟨n, hn, (hraises n hn e).1 hcontribution⟩
  refine ⟨⟨?_, fun hnone => ?_⟩, herror⟩
  · intro hsome n hn hposition e he
    obtain ⟨out, hout⟩ := hsome
    rw [reduce_eq_reduceNodes hcompile, reduceNodes_eq_ok_iff hrows] at hout
    obtain ⟨outputs, hall, -⟩ := hout
    obtain ⟨output, -, hok⟩ := exists_of_mapM_eq_ok (mapM_eq_ok_iff.2 hall) hn
    cases hok.symm.trans ((hraises n hn e).2 ⟨hposition, he⟩)
  · cases hout : b.reduce plan with
    | ok out => exact ⟨out, rfl⟩
    | error e =>
      obtain ⟨n, hn, hposition, he⟩ := herror e hout
      exact absurd he (hnone n hn hposition e)

theorem exists_yields_of_reduce (hb : b.WellFormed) (hrows : b.numRows ≠ 0)
    (hcompile : plan.compile = .ok nodes) (hcolumns : b.HasColumns (Node.leafColumns nodes))
    {out : Batch} (h : b.reduce plan = .ok out) :
    ∃ outputs, List.Forall₂ (fun n output => n.Yields b output) nodes outputs ∧
      out = ofOutputs outputs := by
  rw [reduce_eq_reduceNodes hcompile, reduceNodes_eq_ok_iff hrows] at h
  obtain ⟨outputs, hall, rfl⟩ := h
  refine ⟨outputs, forall₂_imp_of_mem hall fun n hn output hok => ?_, rfl⟩
  exact Node.Yields.of_contribution hb hrows hcolumns.sortNames
    (Node.columnNames_subset_sortNames_leafColumns hn) (Plan.fresh_of_mem_compile hcompile hn) hok

theorem reduce_empty (hrows : b.numRows = 0) (hcompile : plan.compile = .ok nodes) :
    b.reduce plan = .ok (headerOnly nodes) := by
  rw [reduce_eq_reduceNodes hcompile, reduceNodes, if_pos hrows]

/-- A batch without rows reduces to a header of strings. A batch with rows that has the columns the
plan reads reduces unless a computed expression raises an error, which is then the result; and its
one row holds what the expressions yield, in order. -/
theorem reduce_of_compile (hb : b.Reachable) (hcompile : plan.compile = .ok nodes) :
    (b.numRows = 0 →
      ∃ out, b.reduce plan = .ok out ∧ out.rows = [] ∧
        List.Forall₂ (fun e c => ∃ n, e.compile = .ok n ∧ c = ⟨n.identity, .string⟩)
          plan.expressions out.columns) ∧
    (b.numRows ≠ 0 → b.HasColumns (Node.leafColumns nodes) →
      ((∃ out, b.reduce plan = .ok out) ↔
        ∀ n ∈ nodes, b.position? n.key = none → ∀ e, ¬ n.Raises b.history e) ∧
      (∀ out, b.reduce plan = .ok out →
        ∃ outputs : List (Column × Value), out.columns = outputs.map Prod.fst ∧
          out.rows = [outputs.map Prod.snd] ∧
          List.Forall₂ (fun e output => ∃ n, e.compile = .ok n ∧ n.Yields b output)
            plan.expressions outputs) ∧
      ∀ e, b.reduce plan = .error e →
        ∃ n ∈ nodes, b.position? n.key = none ∧ n.Raises b.history e) ∧
    (b.numRows ≠ 0 → plan.expressions = [] →
      ∃ out, b.reduce plan = .ok out ∧ out.columns = [] ∧ out.rows = [[]]) := by
  refine ⟨fun hrows => ?_, fun hrows hcolumns => ?_, fun hrows hempty => ?_⟩
  · refine ⟨headerOnly nodes, reduce_empty hrows hcompile, rfl, ?_⟩
    have hheader : List.Forall₂ (fun n c => c = ⟨n.identity, .string⟩) nodes
        (headerOnly nodes).columns :=
      List.forall₂_map_right_iff.2 (List.forall₂_same.2 fun _ _ => rfl)
    exact forall₂_comp_iff.2 ⟨nodes, Plan.compile_eq_ok_iff.1 hcompile, hheader⟩
  · obtain ⟨hok, herror⟩ := reduce_eq_ok_or_raises hb.wellFormed hrows hcompile hcolumns
    refine ⟨hok, fun out hout => ?_, herror⟩
    obtain ⟨outputs, hyields, rfl⟩ :=
      exists_yields_of_reduce hb.wellFormed hrows hcompile hcolumns hout
    exact ⟨outputs, rfl, rows_ofOutputs outputs,
      forall₂_comp_iff.2 ⟨nodes, Plan.compile_eq_ok_iff.1 hcompile, hyields⟩⟩
  · obtain rfl : nodes = [] :=
      List.forall₂_nil_left_iff.1 (hempty ▸ Plan.compile_eq_ok_iff.1 hcompile)
    refine ⟨ofOutputs [], ?_, rfl, rfl⟩
    rw [reduce_eq_reduceNodes hcompile]
    exact (reduceNodes_eq_ok_iff hrows).2 ⟨[], .nil, rfl⟩

def reversedRows : Batch := ⟨[⟨"x", .int64⟩], [#[.int64 1, .int64 5]], #[1, 0], 2⟩

theorem reversedRows_reachable : reversedRows.Reachable := by
  have hstored : ofColumns [⟨"x", .int64⟩] [#[.int64 1, .int64 5]] =
      .ok { reversedRows with sequence := #[0, 1] } := by rfl
  have hsequence : { reversedRows with sequence := #[0, 1] }.withSequence #[1, 0] =
      .ok reversedRows := by rfl
  exact .withSequence (.ofColumns hstored) hsequence

def distancePlan : Plan :=
  ⟨[.binary (.column "x") (.arithmetic .sub) (.aggregate .sum (.column "x")),
    .named (.column "x") "last"]⟩

def distanceNodes : List Node :=
  [.ofBinary (.ofColumn "x") (.arithmetic .sub) (.ofAggregate .sum (.ofColumn "x")),
    .named (.ofColumn "x") "last"]

theorem reduce_reversedRows_distancePlan :
    reversedRows.Reachable ∧ distancePlan.compile = .ok distanceNodes ∧
      reversedRows.numRows ≠ 0 ∧ reversedRows.HasColumns (Node.leafColumns distanceNodes) ∧
      (∀ n ∈ distanceNodes, reversedRows.position? n.key = none →
        ∀ e, ¬ n.Raises reversedRows.history e) ∧
      ∃ out, reversedRows.reduce distancePlan = .ok out ∧
        out.rows = [[.int64 (-5), .int64 1]] ∧
        ∃ outputs : List (Column × Value), out.columns = outputs.map Prod.fst ∧
          out.rows = [outputs.map Prod.snd] ∧
          List.Forall₂ (fun e output => ∃ n, e.compile = .ok n ∧ n.Yields reversedRows output)
            distancePlan.expressions outputs := by
  have hcompile : distancePlan.compile = .ok distanceNodes := by rfl
  have hrows : reversedRows.numRows ≠ 0 := by decide
  have hcolumns : reversedRows.HasColumns (Node.leafColumns distanceNodes) := by decide
  have hout : reversedRows.reduce distancePlan =
      .ok (ofOutputs [(⟨"(x - SUM(x))", .int64⟩, .int64 (-5)), (⟨"last", .int64⟩, .int64 1)]) := by
    rfl
  obtain ⟨hok, houtputs, -⟩ :=
    (reduce_of_compile reversedRows_reachable hcompile).2.1 hrows hcolumns
  exact ⟨reversedRows_reachable, hcompile, hrows, hcolumns, hok.1 ⟨_, hout⟩, _, hout, rfl,
    houtputs _ hout⟩

end Batch

end Columnar
