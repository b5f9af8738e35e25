import Columnar.Proofs.Expr.Subexpressions
import Columnar.Proofs.Reduction.Columns

/-!
# Reducing a result again

Without aliases the key of an expression is its identity, and so it is the name of the column that
the expression has in a result. If these names differ from one another, the column found under a key
is the expression's own. A second reduction by the same plan then passes every expression through:
it takes type and value from the first result and computes nothing.
-/

namespace Columnar

theorem Expr.key_eq_identity_of_compile {e : Expr} {n : Node} (h : e.compile = .ok n)
    (hplain : ∀ inner name, named inner name ∉ e.subexpressions) : n.key = n.identity := by
  rw [key_of_compile h, withoutAliases_eq_self hplain, identity_of_compile h]

namespace Batch

theorem position?_of_getElem? {b : Batch} (hdistinct : (b.columns.map Column.name).Nodup) {i : Nat}
    {c : Column} (hc : b.columns[i]? = some c) : b.position? c.name = some i := by
  obtain ⟨hi, rfl⟩ := List.getElem?_eq_some_iff.1 hc
  refine List.findIdx?_eq_some_iff_getElem.2 ⟨hi, beq_iff_eq.2 rfl, fun j hj => ?_⟩
  rw [Bool.not_eq_true, beq_eq_false_iff_ne]
  intro hname
  have hj' : j < b.columns.length := Nat.lt_trans hj hi
  have hsame : (b.columns.map Column.name)[j]? = (b.columns.map Column.name)[i]? := by
    rw [List.getElem?_map, List.getElem?_map, List.getElem?_eq_getElem hj',
      List.getElem?_eq_getElem hi, Option.map_some, Option.map_some, hname]
  have hlength : j < (b.columns.map Column.name).length := by rwa [List.length_map]
  exact absurd ((List.getElem?_inj hlength hdistinct).1 hsame) (Nat.ne_of_lt hj)

variable {b : Batch} {fields : List String} {nodes : List Node} {outputs : List (Column × Value)}

/-- The key of each expression is the name of its own output, and no other output has that name. -/
theorem position?_ofOutputs
    (hnames : outputs.map (fun output => output.1.name) = nodes.map Node.key)
    (hdistinct : (nodes.map Node.key).Nodup) {i : Nat} {n : Node} (hn : nodes[i]? = some n) :
    (ofOutputs outputs).position? n.key = some i := by
  have hcolumns : (ofOutputs outputs).columns.map Column.name = nodes.map Node.key :=
    List.map_map.trans hnames
  have hname : ((ofOutputs outputs).columns.map Column.name)[i]? = some n.key := by
    rw [hcolumns, List.getElem?_map, hn, Option.map_some]
  rw [List.getElem?_map, Option.map_eq_some_iff] at hname
  obtain ⟨c, hc, hname⟩ := hname
  rw [← hname]
  exact position?_of_getElem? (hcolumns ▸ hdistinct) hc

theorem contribution_ofOutputs {n : Node} {i : Nat} {output : Column × Value}
    (houtput : outputs[i]? = some output) (hname : output.1.name = n.identity)
    (hposition : (ofOutputs outputs).position? n.key = some i) (names : List String) :
    n.contribution (ofOutputs outputs) names = .ok output := by
  have hsource : (ofOutputs outputs).columns[i]? = some output.1 := by
    change (outputs.map Prod.fst)[i]? = _
    rw [List.getElem?_map, houtput, Option.map_some]
  have hlast : (ofOutputs outputs).lastValue? i = some output.2 := by
    change (outputs.map fun output => #[output.2])[i]?.bind (·[0]?) = _
    rw [List.getElem?_map, houtput]
    rfl
  unfold Node.contribution Node.task
  rw [Node.slot_of_position? hposition]
  change n.output (ofOutputs outputs) (.passThrough i) = _
  simp only [Node.output, hsource, hlast, ← hname]

/-- A result whose columns are named by the keys is reduced to itself. -/
theorem reduceNodes_ofOutputs
    (hall : List.Forall₂ (fun n output => Node.contribution b fields n = .ok output) nodes outputs)
    (hkeys : ∀ n ∈ nodes, n.key = n.identity) (hdistinct : (nodes.map Node.identity).Nodup)
    (names : List String) :
    ((ofOutputs outputs).reduceNodes nodes names).2 = .ok (ofOutputs outputs) ∧
      (ofOutputs outputs).partition nodes = (List.range nodes.length).map .passThrough := by
  have hnames : outputs.map (fun output => output.1.name) = nodes.map Node.key :=
    map_eq_map_of_mapM_eq_ok (mapM_eq_ok_iff.2 hall) fun n hn output h =>
      (Node.name_of_contribution h).trans (hkeys n hn).symm
  have hdistinct : (nodes.map Node.key).Nodup := by
    rwa [List.map_congr_left hkeys]
  have hposition : ∀ (i : Nat) (n : Node), nodes[i]? = some n →
      (ofOutputs outputs).position? n.key = some i :=
    fun i n => position?_ofOutputs hnames hdistinct
  have hrows : (ofOutputs outputs).numRows ≠ 0 := Nat.one_ne_zero
  refine ⟨(reduceNodes_eq_ok_iff hrows).2 ⟨outputs, ?_, rfl⟩, ?_⟩
  · refine List.forall₂_iff_get.2 ⟨hall.length_eq, fun i hi hi' => ?_⟩
    have hcontribution := hall.get hi hi'
    exact contribution_ofOutputs (List.getElem?_eq_getElem hi')
      (Node.name_of_contribution hcontribution) (hposition i _ (List.getElem?_eq_getElem hi)) _
  · refine List.ext_getElem (by simp [partition]) fun i hi _ => ?_
    have hi : i < nodes.length := by simpa [partition] using hi
    simp only [partition, List.getElem_map, List.getElem_range]
    exact Node.slot_of_position? (hposition i _ (List.getElem?_eq_getElem hi))

/-- Reducing a result again changes nothing. If a plan has no aliases and its expressions have
different identities, a result of a reduction by the plan is reduced to itself by it, with the same
columns, rows and row sequence. No schedule gives anything else, in either reduction. A batch
without rows leaves a header, which is reduced to itself. Of any other batch the result has one row,
and each expression is then passed through from the column at its own position. -/
theorem reduce_reduce {plan : Plan} (hcompile : plan.compile = .ok nodes)
    (hplain : ∀ e ∈ plan.expressions, ∀ inner name, Expr.named inner name ∉ e.subexpressions)
    (hdistinct : (nodes.map Node.identity).Nodup) {out : Batch} (h : b.reduce plan = .ok out) :
    out.reduce plan = .ok out ∧
      (∀ cancels result, (b.MayReduce cancels plan result ↔ result = .ok out) ∧
        (out.MayReduce cancels plan result ↔ result = .ok out)) ∧
      (b.numRows = 0 → out.numRows = 0 ∧ out = headerOnly nodes) ∧
      (b.numRows ≠ 0 → out.numRows = 1 ∧
        out.partition nodes = (List.range nodes.length).map .passThrough) := by
  have hkeys : ∀ n ∈ nodes, n.key = n.identity := by
    intro n hn
    obtain ⟨e, he, hen⟩ := Plan.exists_of_mem_compile hcompile hn
    exact Expr.key_eq_identity_of_compile hen (hplain e he)
  have hmay : out.reduce plan = .ok out → ∀ cancels result,
      (b.MayReduce cancels plan result ↔ result = .ok out) ∧
        (out.MayReduce cancels plan result ↔ result = .ok out) :=
    fun hagain _ _ => ⟨mayReduce_iff_of_ok h, mayReduce_iff_of_ok hagain⟩
  by_cases hrows : b.numRows = 0
  · obtain rfl := Except.ok.inj ((reduce_empty hrows hcompile).symm.trans h)
    have hagain := reduce_empty (b := headerOnly nodes) rfl hcompile
    exact ⟨hagain, hmay hagain, fun _ => ⟨rfl, rfl⟩, fun hne => absurd hrows hne⟩
  · have hout := h
    rw [reduce_eq_reduceNodes hcompile, reduceNodes_eq_ok_iff hrows] at hout
    obtain ⟨outputs, hall, rfl⟩ := hout
    obtain ⟨hagain, hpartition⟩ :=
      reduceNodes_ofOutputs hall hkeys hdistinct (Node.leafColumns nodes)
    rw [← reduce_eq_reduceNodes hcompile] at hagain
    exact ⟨hagain, hmay hagain, fun hzero => absurd hzero hrows, fun _ => ⟨rfl, hpartition⟩⟩

def distinctPlan : Plan :=
  ⟨[.binary (.column "x") (.arithmetic .sub) (.aggregate .sum (.column "x")), .column "x",
    .aggregateRows .count]⟩

def distinctNodes : List Node :=
  [.ofBinary (.ofColumn "x") (.arithmetic .sub) (.ofAggregate .sum (.ofColumn "x")), .ofColumn "x",
    .ofAggregateRows .count]

/-- The first reduction passes only the last value through, the second one everything. Without rows
the header is kept. -/
theorem reduce_reduce_distinctPlan :
    distinctPlan.compile = .ok distinctNodes ∧
      (∀ e ∈ distinctPlan.expressions, ∀ inner name, Expr.named inner name ∉ e.subexpressions) ∧
      (distinctNodes.map Node.identity).Nodup ∧
      reversedRows.partition distinctNodes = [.computed, .passThrough 0, .computed] ∧
      (∃ out, reversedRows.reduce distinctPlan = .ok out ∧
        out.rows = [[.int64 (-5), .int64 1, .int64 2]] ∧ out.reduce distinctPlan = .ok out ∧
        out.partition distinctNodes = [.passThrough 0, .passThrough 1, .passThrough 2]) ∧
      ∃ out, (new [⟨"x", .int64⟩]).reduce distinctPlan = .ok out ∧ out.numRows = 0 ∧
        out.reduce distinctPlan = .ok out := by
  have hcompile : distinctPlan.compile = .ok distinctNodes := by rfl
  have hplain : ∀ e ∈ distinctPlan.expressions, ∀ inner name,
      Expr.named inner name ∉ e.subexpressions := by
    simp [distinctPlan, Expr.subexpressions]
  have hdistinct : (distinctNodes.map Node.identity).Nodup := by decide
  have hrows : reversedRows.numRows ≠ 0 := by decide
  have hout : reversedRows.reduce distinctPlan = .ok (ofOutputs
      [(⟨"(x - SUM(x))", .int64⟩, .int64 (-5)), (⟨"x", .int64⟩, .int64 1),
        (⟨"COUNT(*)", .int64⟩, .int64 2)]) := by rfl
  have hheader : (new [⟨"x", .int64⟩]).reduce distinctPlan = .ok (headerOnly distinctNodes) := by
    rfl
  obtain ⟨hagain, -, -, hone⟩ := reduce_reduce hcompile hplain hdistinct hout
  exact ⟨hcompile, hplain, hdistinct, by decide, ⟨_, hout, rfl, hagain, (hone hrows).2⟩,
    _, hheader, rfl, (reduce_reduce hcompile hplain hdistinct hheader).1⟩

end Batch

end Columnar
