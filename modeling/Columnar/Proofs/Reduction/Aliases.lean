import Columnar.Proofs.Expr.Compilation
import Columnar.Proofs.Reduction.Join
import Columnar.Proofs.Reduction.Plan

/-!
# Reductions without aliases

A plan and the plan without its aliases run side by side: after every step of any schedule the nodes
of the second run are those of the first without their aliases, and the failures are the same. What
is materialized in the end differs in the names of the columns alone, and without aliases these are
the keys (`reduce_withoutAliases`).
-/

namespace Columnar

/-! ### Runs -/

namespace Task

def withoutAliases (t : Task) : Task := ⟨t.node.withoutAliases, t.phase⟩

theorem advance_withoutAliases (w : Workload) (flag : Bool) (t : Task) :
    t.withoutAliases.advance w flag = (t.advance w flag).withoutAliases := by
  obtain ⟨n, phase⟩ := t
  cases phase with
  | opening =>
    simp only [withoutAliases, advance]
    split <;> rfl
  | testing rows =>
    cases rows with
    | nil => rfl
    | cons row rows =>
      simp only [withoutAliases, advance]
      split <;> rfl
  | feeding row rows =>
    simp only [withoutAliases, advance, Node.update_withoutAliases]
    rcases n.update row with ⟨after, _ | e⟩ <;> rfl
  | flagging | recording | done => rfl

end Task

namespace Run

/-- The run of the nodes without their aliases that stands where this one does. -/
def withoutAliases (run : Run) : Run :=
  { run with tasks := run.tasks.map Task.withoutAliases }

theorem step_withoutAliases (w : Workload) (run : Run) (position : Nat) :
    run.withoutAliases.step w position = (run.step w position).withoutAliases := by
  unfold step withoutAliases
  dsimp only
  rw [List.getElem?_map]
  cases run.tasks[position]? with
  | none => rfl
  | some t =>
    dsimp only [Option.map_some]
    rw [Task.advance_withoutAliases, List.map_set]
    rfl

theorem follow_withoutAliases (w : Workload) (run : Run) (schedule : List Nat) :
    run.withoutAliases.follow w schedule = (run.follow w schedule).withoutAliases := by
  induction schedule generalizing run with
  | nil => rfl
  | cons position rest ih => rw [follow_cons, follow_cons, step_withoutAliases, ih]

theorem start_withoutAliases (nodes : List Node) (slots : List Slot) :
    start (nodes.map Node.withoutAliases) slots = (start nodes slots).withoutAliases := by
  have htask : ∀ n slot, Task.start (Node.withoutAliases n) slot =
      (Task.start n slot).withoutAliases := by
    intro n slot
    cases slot <;> rfl
  unfold start withoutAliases
  dsimp only
  rw [List.zipWith_map_left, List.map_zipWith, funext₂ htask]

theorem finished_withoutAliases_iff {run : Run} : run.withoutAliases.Finished ↔ run.Finished :=
  List.forall_mem_map

theorem outcome_withoutAliases (run : Run) :
    run.withoutAliases.outcome = run.outcome.map (·.map Node.withoutAliases) id := by
  unfold outcome withoutAliases
  dsimp only [Prod.map]
  rw [List.map_map, List.map_map]
  rfl

end Run

/-- Without aliases an evaluation can end as it can with them. -/
theorem Workload.mayEnd_withoutAliases_iff {w : Workload} {nodes : List Node} {slots : List Slot}
    {outcome : List Node × Option ReduceError} :
    w.MayEnd (nodes.map Node.withoutAliases) slots outcome ↔
      ∃ named, w.MayEnd nodes slots named ∧ named.map (·.map Node.withoutAliases) id = outcome := by
  unfold MayEnd
  simp only [Run.start_withoutAliases, Run.follow_withoutAliases, Run.finished_withoutAliases_iff,
    Run.outcome_withoutAliases]
  constructor
  · intro hend
    obtain ⟨schedule, hfinished, houtcome⟩ := hend
    exact ⟨_, ⟨schedule, hfinished, rfl⟩, houtcome⟩
  · intro hend
    obtain ⟨_, ⟨schedule, hfinished, rfl⟩, houtcome⟩ := hend
    exact ⟨schedule, hfinished, houtcome⟩

/-! ### Results -/

/-- Results that are one error, or batches that are the same but for the names of their columns;
those of the second are given. -/
inductive SameButNames (names : List String) :
    Except ReduceError Batch → Except ReduceError Batch → Prop where
  | error (e : ReduceError) : SameButNames names (.error e) (.error e)
  | ok {out plain : Batch} (hrows : plain.rows = out.rows)
      (htypes : plain.columns.map Column.dataType = out.columns.map Column.dataType)
      (hnames : plain.columns.map Column.name = names) : SameButNames names (.ok out) (.ok plain)

def renamed (name : String) (output : Column × Value) : Column × Value :=
  (⟨name, output.1.dataType⟩, output.2)

theorem Node.output_withoutAliases (b : Batch) (n : Node) (slot : Slot) :
    n.withoutAliases.output b slot = (n.output b slot).map (renamed n.key) := by
  cases slot with
  | passThrough position =>
    simp only [output, identity_withoutAliases]
    cases b.columns[position]? <;> cases b.lastValue? position <;> rfl
  | computed =>
    simp only [output, identity_withoutAliases, finalize_withoutAliases]
    cases n.finalize <;> rfl

theorem Node.text_task (aliases : Bool) (b : Batch) (fields : List String) (n : Node) :
    (n.task b fields).1.text aliases = n.text aliases := by
  unfold task
  cases b.slot n with
  | passThrough position => rfl
  | computed =>
    unfold runTask foldBatch
    cases b.cursor fields with
    | error e => rfl
    | ok c => exact text_feed aliases (c.rest.map c.row) n

namespace Batch

variable {b : Batch} {cancels : Bool} {nodes : List Node} {fields : List String}
  {result : Except ReduceError Batch}

/-- Renaming every output is seen in the names of the columns alone. -/
theorem sameButNames_mapM {f : Node → Except ReduceError (Column × Value)} (nodes : List Node) :
    SameButNames (nodes.map Node.key) ((nodes.mapM f).map ofOutputs)
      ((nodes.mapM fun n => (f n).map (renamed n.key)).map ofOutputs) := by
  rw [mapM_map_zip]
  cases houtputs : nodes.mapM f with
  | error e => exact .error e
  | ok outputs =>
    have hlength := (mapM_eq_ok_iff.1 houtputs).length_eq
    have hfst : (nodes.zip outputs).map Prod.fst = nodes := List.map_fst_zip (Nat.le_of_eq hlength)
    have hsnd : (nodes.zip outputs).map Prod.snd = outputs :=
      List.map_snd_zip (Nat.le_of_eq hlength.symm)
    refine .ok ?_ ?_ ?_
    · rw [rows_ofOutputs, rows_ofOutputs, List.map_map]
      conv_rhs => rw [← hsnd, List.map_map]
      rfl
    · unfold ofOutputs
      rw [List.map_map, List.map_map, List.map_map]
      conv_rhs => rw [← hsnd, List.map_map]
      rfl
    · unfold ofOutputs
      rw [List.map_map, List.map_map]
      conv_rhs => rw [← hfst, List.map_map]
      rfl

theorem partition_withoutAliases (b : Batch) (nodes : List Node) :
    b.partition (nodes.map Node.withoutAliases) = b.partition nodes := by
  unfold partition
  rw [List.map_map]
  refine List.map_congr_left fun n _ => ?_
  rw [Function.comp_apply, slot, slot, Node.key_withoutAliases]

theorem sameButNames_headerOnly (nodes : List Node) :
    SameButNames (nodes.map Node.key) (.ok (headerOnly nodes))
      (.ok (headerOnly (nodes.map Node.withoutAliases))) := by
  refine .ok rfl ?_ ?_
  · simp only [headerOnly, new, List.map_map]
    rfl
  · simp only [headerOnly, new, List.map_map]
    exact List.map_congr_left fun n _ => Node.identity_withoutAliases n

/-- Once every task is done, what is materialized without aliases differs in names alone. -/
theorem sameButNames_materialize {w : Workload} {after : List Node}
    (hend : w.MayEnd nodes (w.batch.partition nodes) (after, none)) :
    SameButNames (nodes.map Node.key) (materialize w.batch after (w.batch.partition nodes))
      (materialize w.batch (after.map Node.withoutAliases) (w.batch.partition nodes)) := by
  have hafter : after = nodes.map fun n => (n.task w.batch w.fields).1 := by
    have houtcome := hend.eq_evaluate rfl
    rw [evaluate_partition] at houtcome
    exact congrArg Prod.fst houtcome
  have houtput : ∀ n : Node, (n.task w.batch w.fields).1.withoutAliases.output w.batch
      (w.batch.slot n) =
        ((n.task w.batch w.fields).1.output w.batch (w.batch.slot n)).map (renamed n.key) := by
    intro n
    rw [Node.output_withoutAliases, Node.key, Node.text_task, Node.key]
  rw [hafter, List.map_map, materialize_partition, materialize_partition]
  simp only [Function.comp_apply, houtput]
  exact sameButNames_mapM nodes

/-- What a reduction with nodes can give is what it can give without their aliases, but for the
names. -/
theorem MayReduceNodes.withoutAliases (h : b.MayReduceNodes cancels nodes fields result) :
    ∃ plain, b.MayReduceNodes cancels (nodes.map Node.withoutAliases) fields plain ∧
      SameButNames (nodes.map Node.key) result plain := by
  have hpartition := b.partition_withoutAliases nodes
  cases h with
  | empty hrows => exact ⟨_, .empty hrows, sameButNames_headerOnly nodes⟩
  | @failed after e hrows hend =>
    have hplain := Workload.mayEnd_withoutAliases_iff.2 ⟨_, hend, rfl⟩
    rw [← hpartition] at hplain
    exact ⟨_, .failed hrows hplain, .error e⟩
  | @done after hrows hend =>
    have hplain := Workload.mayEnd_withoutAliases_iff.2 ⟨_, hend, rfl⟩
    rw [← hpartition] at hplain
    refine ⟨_, .done hrows hplain, ?_⟩
    rw [hpartition]
    exact sameButNames_materialize hend

/-- Nothing comes without aliases that does not come with them. -/
theorem exists_mayReduceNodes_of_withoutAliases
    (h : b.MayReduceNodes cancels (nodes.map Node.withoutAliases) fields result) :
    ∃ named, b.MayReduceNodes cancels nodes fields named ∧
      SameButNames (nodes.map Node.key) named result := by
  have hpartition := b.partition_withoutAliases nodes
  cases h with
  | empty hrows => exact ⟨_, .empty hrows, sameButNames_headerOnly nodes⟩
  | @failed _ e hrows hend =>
    rw [hpartition] at hend
    obtain ⟨⟨after, failure⟩, hnamed, houtcome⟩ := Workload.mayEnd_withoutAliases_iff.1 hend
    obtain ⟨-, rfl⟩ := Prod.mk.inj houtcome
    exact ⟨_, .failed hrows hnamed, .error e⟩
  | @done _ hrows hend =>
    rw [hpartition] at hend ⊢
    obtain ⟨⟨after, failure⟩, hnamed, houtcome⟩ := Workload.mayEnd_withoutAliases_iff.1 hend
    obtain ⟨rfl, rfl⟩ := Prod.mk.inj houtcome
    exact ⟨_, .done hrows hnamed, sameButNames_materialize hnamed⟩

end Batch

namespace Plan

variable {plan : Plan} {nodes : List Node}

theorem compile_withoutAliases (h : plan.compile = .ok nodes) :
    plan.withoutAliases.compile = .ok (nodes.map Node.withoutAliases) := by
  rw [compile_eq_ok_iff] at h ⊢
  refine List.forall₂_map_left_iff.2 (List.forall₂_map_right_iff.2 ?_)
  exact h.imp fun e n hn => Expr.compile_withoutAliases hn

theorem leafColumns_withoutAliases (nodes : List Node) :
    Node.leafColumns (nodes.map Node.withoutAliases) = Node.leafColumns nodes := by
  unfold Node.leafColumns
  rw [Node.columnNamesOf_eq_flatMap, Node.columnNamesOf_eq_flatMap, List.flatMap_map,
    funext Node.columnNames_withoutAliases]

end Plan

namespace Batch

variable {plan : Plan} {nodes : List Node}

/-- Aliases are transparent. If a plan compiles, the plan without its aliases does. It reads the
same columns, passes the same expressions through, and reduces any batch to the same error or to a
batch with the same rows and data types, whose columns bear the keys of its expressions as names.
Where failures cancel, each result that one of the plans can give is one that the other can give, in
this sense. -/
theorem reduce_withoutAliases (b : Batch) (hcompile : plan.compile = .ok nodes) :
    ∃ plain, plan.withoutAliases.compile = .ok plain ∧
      Node.leafColumns plain = Node.leafColumns nodes ∧ b.partition plain = b.partition nodes ∧
      SameButNames (plain.map Node.key) (b.reduce plan) (b.reduce plan.withoutAliases) ∧
      ∀ cancels,
        (∀ result, b.MayReduce cancels plan result →
          ∃ result', b.MayReduce cancels plan.withoutAliases result' ∧
            SameButNames (plain.map Node.key) result result') ∧
        ∀ result', b.MayReduce cancels plan.withoutAliases result' →
          ∃ result, b.MayReduce cancels plan result ∧
            SameButNames (plain.map Node.key) result result' := by
  have hplain := Plan.compile_withoutAliases hcompile
  have hleaves := Plan.leafColumns_withoutAliases nodes
  have hkeys : (nodes.map Node.withoutAliases).map Node.key = nodes.map Node.key := by
    rw [List.map_map]
    exact List.map_congr_left fun n _ => Node.key_withoutAliases n
  have hmay : ∀ cancels result, b.MayReduce cancels plan result ↔
      b.MayReduceNodes cancels nodes (Node.leafColumns nodes) result := by
    intro cancels result
    rw [MayReduce, hcompile]
  have hmay' : ∀ cancels result, b.MayReduce cancels plan.withoutAliases result ↔
      b.MayReduceNodes cancels (nodes.map Node.withoutAliases) (Node.leafColumns nodes) result := by
    intro cancels result
    rw [MayReduce, hplain, ← hleaves]
  have hforth : ∀ cancels result, b.MayReduce cancels plan result →
      ∃ result', b.MayReduce cancels plan.withoutAliases result' ∧
        SameButNames (nodes.map Node.key) result result' := by
    intro cancels result h
    obtain ⟨result', h', hsame⟩ := ((hmay cancels result).1 h).withoutAliases
    exact ⟨result', (hmay' cancels result').2 h', hsame⟩
  have hback : ∀ cancels result', b.MayReduce cancels plan.withoutAliases result' →
      ∃ result, b.MayReduce cancels plan result ∧
        SameButNames (nodes.map Node.key) result result' := by
    intro cancels result' h'
    obtain ⟨result, h, hsame⟩ :=
      exists_mayReduceNodes_of_withoutAliases ((hmay' cancels result').1 h')
    exact ⟨result, (hmay cancels result).2 h, hsame⟩
  -- Without cancellation there is one result on either side.
  have hreduce : SameButNames (nodes.map Node.key) (b.reduce plan)
      (b.reduce plan.withoutAliases) := by
    obtain ⟨result', h', hsame⟩ := hforth false _ (mayReduce_iff_of_not_cancels.2 rfl)
    rwa [mayReduce_iff_of_not_cancels.1 h'] at hsame
  refine ⟨_, hplain, hleaves, b.partition_withoutAliases nodes, ?_, fun cancels => ?_⟩
  · rwa [hkeys]
  · rw [hkeys]
    exact ⟨hforth cancels, hback cancels⟩

/-- The distance of the last value from the sum, with aliases at every depth. -/
def aliasedDistancePlan : Plan :=
  ⟨[.named (.binary (.named (.column "x") "last") (.arithmetic .sub)
      (.aggregate .sum (.named (.named (.column "x") "inner") "outer"))) "gap",
    .named (.column "x") "last"]⟩

def aliasedDistanceNodes : List Node :=
  [.named (.ofBinary (.named (.ofColumn "x") "last") (.arithmetic .sub)
      (.ofAggregate .sum (.named (.named (.ofColumn "x") "inner") "outer"))) "gap",
    .named (.ofColumn "x") "last"]

theorem reduce_withoutAliases_aliasedDistancePlan :
    aliasedDistancePlan.compile = .ok aliasedDistanceNodes ∧
      (∃ out, reversedRows.reduce aliasedDistancePlan = .ok out ∧
        out.columns.map Column.name = ["gap", "last"] ∧ out.rows = [[.int64 (-5), .int64 1]]) ∧
      ∃ plain, aliasedDistancePlan.withoutAliases.compile = .ok plain ∧
        plain.map Node.key = ["(x - SUM(x))", "x"] ∧
        reversedRows.partition plain = [.computed, .passThrough 0] ∧
        reversedRows.partition plain = reversedRows.partition aliasedDistanceNodes ∧
        SameButNames (plain.map Node.key) (reversedRows.reduce aliasedDistancePlan)
          (reversedRows.reduce aliasedDistancePlan.withoutAliases) ∧
        ∀ result, reversedRows.MayReduce true aliasedDistancePlan result →
          ∃ result', reversedRows.MayReduce true aliasedDistancePlan.withoutAliases result' ∧
            SameButNames (plain.map Node.key) result result' := by
  have hcompile : aliasedDistancePlan.compile = .ok aliasedDistanceNodes := by rfl
  have hout : reversedRows.reduce aliasedDistancePlan =
      .ok (ofOutputs [(⟨"gap", .int64⟩, .int64 (-5)), (⟨"last", .int64⟩, .int64 1)]) := by rfl
  have hcompile' : aliasedDistancePlan.withoutAliases.compile =
      .ok (aliasedDistanceNodes.map Node.withoutAliases) := by rfl
  obtain ⟨plain, hplain, -, hpartition, hreduce, hmay⟩ :=
    reduce_withoutAliases reversedRows hcompile
  cases hcompile'.symm.trans hplain
  exact ⟨hcompile, ⟨_, hout, rfl, rfl⟩, _, hplain, by decide, by decide, hpartition, hreduce,
    (hmay true).1⟩

end Batch

end Columnar
