import Columnar.Proofs.Batch.Rows
import Columnar.Proofs.Reduction.Join

/-!
# What a reduction sees of a batch

Under a name a batch shows the data type of the first column of that name and its values in logical
order (`Batch.view?`). Two batches of as many rows that show the same under the names that the tasks
read and under the keys of the expressions have the same reductions: each task is given the same
rows or fails to open its cursor in the same way, the same expressions are passed through, and the
same last values are found. Positions, the physical order and other columns are not seen.
-/

namespace Columnar

namespace Batch

/-- The data type of the first column of a name, and its values in logical order. -/
def view? (b : Batch) (name : String) : Option (DataType × List Value) := do
  let position ← b.position? name
  let column ← b.columns[position]?
  return (column.dataType, b.columnValues position)

/-- Batches of as many rows that show the same under some names. -/
structure SameView (names : List String) (b b' : Batch) : Prop where
  numRows : b.numRows = b'.numRows
  view? : ∀ name ∈ names, b.view? name = b'.view? name

variable {b b' : Batch} {names : List String} {name : String}

theorem view?_of_position? {position : Nat} {column : Column}
    (hposition : b.position? name = some position) (hcolumn : b.columns[position]? = some column) :
    b.view? name = some (column.dataType, b.columnValues position) := by
  simp [view?, hposition, hcolumn]

theorem view?_eq_none_iff : b.view? name = none ↔ b.position? name = none := by
  cases hposition : b.position? name with
  | none => simp [view?, hposition]
  | some position =>
    obtain ⟨column, hcolumn, -⟩ := exists_column_of_position? hposition
    simp [view?_of_position? hposition hcolumn]

/-- Batches show the same under a name if both lack it, or if the first columns of that name have
the same data type and the same values in logical order. -/
theorem view?_eq_view?_iff :
    b.view? name = b'.view? name ↔
      (b.position? name = none ∧ b'.position? name = none) ∨
        ∃ position position' column column', b.position? name = some position ∧
          b'.position? name = some position' ∧ b.columns[position]? = some column ∧
          b'.columns[position']? = some column' ∧ column.dataType = column'.dataType ∧
          b.columnValues position = b'.columnValues position' := by
  constructor
  · intro hview
    cases hposition : b.position? name with
    | none => exact .inl ⟨rfl, view?_eq_none_iff.1 (hview ▸ view?_eq_none_iff.2 hposition)⟩
    | some position =>
      cases hposition' : b'.position? name with
      | none =>
        rw [view?_eq_none_iff.1 (hview.trans (view?_eq_none_iff.2 hposition'))] at hposition
        cases hposition
      | some position' =>
        obtain ⟨column, hcolumn, -⟩ := exists_column_of_position? hposition
        obtain ⟨column', hcolumn', -⟩ := exists_column_of_position? hposition'
        rw [view?_of_position? hposition hcolumn, view?_of_position? hposition' hcolumn'] at hview
        obtain ⟨htype, hvalues⟩ := Prod.mk.inj (Option.some.inj hview)
        exact .inr ⟨position, position', column, column', rfl, rfl, hcolumn, hcolumn', htype,
          hvalues⟩
  · intro hcases
    rcases hcases with ⟨hnone, hnone'⟩ | ⟨position, position', column, column', hposition,
      hposition', hcolumn, hcolumn', htype, hvalues⟩
    · rw [view?_eq_none_iff.2 hnone, view?_eq_none_iff.2 hnone']
    · rw [view?_of_position? hposition hcolumn, view?_of_position? hposition' hcolumn', htype,
        hvalues]

/-! ### Rows -/

theorem WellFormed.map_cell (hb : b.WellFormed) (name : String) :
    b.sequence.toList.map (b.cell · name) =
      ((b.view? name).map Prod.snd).getD (List.replicate b.numRows .null) := by
  cases hposition : b.position? name with
  | none =>
    rw [view?_eq_none_iff.2 hposition]
    simp [cell, hposition, numRows, List.map_const']
  | some position =>
    obtain ⟨column, hcolumn, -⟩ := exists_column_of_position? hposition
    rw [view?_of_position? hposition hcolumn]
    simp [cell, hposition, hb.columnValues_eq_map (lt_numColumns_of_position? hposition)]

namespace SameView

variable (h : SameView names b b')

include h

theorem position?_eq_none_iff (hname : name ∈ names) :
    b.position? name = none ↔ b'.position? name = none := by
  rw [← view?_eq_none_iff, ← view?_eq_none_iff, h.view? name hname]

theorem mono {others : List String} (hsub : others ⊆ names) : SameView others b b' :=
  ⟨h.numRows, fun name hname => h.view? name (hsub hname)⟩

theorem map_projectedRow (hb : b.WellFormed) (hb' : b'.WellFormed) :
    b.sequence.toList.map (b.projectedRow names) =
      b'.sequence.toList.map (b'.projectedRow names) := by
  have hlength : b.sequence.toList.length = b'.sequence.toList.length := h.numRows
  refine List.ext_getElem (by simpa using hlength) fun row hrow hrow' => ?_
  rw [List.length_map] at hrow hrow'
  rw [List.getElem_map, List.getElem_map]
  unfold projectedRow
  congr 1
  -- The physical positions of the row differ; under each name stands the same value.
  refine List.map_congr_left fun name hname => ?_
  have hcells : b.sequence.toList.map (b.cell · name) =
      b'.sequence.toList.map (b'.cell · name) := by
    rw [hb.map_cell, hb'.map_cell, h.view? name hname, h.numRows]
  have hcell := congrArg (·[row]?) hcells
  simp only [List.getElem?_map, List.getElem?_eq_getElem hrow, List.getElem?_eq_getElem hrow',
    Option.map_some, Option.some.injEq] at hcell
  rw [hcell]

theorem hasColumns_iff : b.HasColumns names ↔ b'.HasColumns names := by
  refine forall₂_congr fun name hname => ?_
  rw [← not_iff_not, ← Batch.position?_eq_none_iff, ← Batch.position?_eq_none_iff]
  exact h.position?_eq_none_iff hname

end SameView

def cursorRows (b : Batch) (names : List String) : Except ReduceError (List Row) :=
  (b.cursor names).map fun c => c.rest.map c.row

theorem cursorRows_of_hasColumns (h : b.HasColumns names) :
    b.cursorRows names = .ok (b.sequence.toList.map (b.projectedRow names)) := by
  obtain ⟨c, hc, hrest⟩ := exists_cursor h
  rw [cursorRows, hc, ← hrest]
  rfl

theorem cursorRows_of_unknown (h : First (fun n => b.position? n = none) names name) :
    b.cursorRows names = .error (.unknownColumn name) := by
  rw [cursorRows, cursor_of_unknown h]
  rfl

/-- Over the same views, cursors yield the same rows or lack the same column. -/
theorem SameView.cursorRows_eq (h : SameView names b b') (hb : b.WellFormed)
    (hb' : b'.WellFormed) : b.cursorRows names = b'.cursorRows names := by
  by_cases hcolumns : b.HasColumns names
  · rw [cursorRows_of_hasColumns hcolumns, cursorRows_of_hasColumns (h.hasColumns_iff.1 hcolumns),
      h.map_projectedRow hb hb']
  · obtain ⟨name, hfirst⟩ := exists_first_unknown hcolumns
    rw [cursorRows_of_unknown hfirst,
      cursorRows_of_unknown (hfirst.congr fun n hn => h.position?_eq_none_iff hn)]

end Batch

variable {b b' : Batch} {names : List String}

/-! ### Tasks -/

/-- Of its batch a task sees the rows of its cursor. -/
theorem Task.advance_opening (w : Workload) (flag : Bool) (n : Node) :
    Task.advance w flag ⟨n, .opening⟩ =
      match w.batch.cursorRows w.fields with
      | .error e => ⟨n, .flagging e⟩
      | .ok rows => ⟨n, .testing rows⟩ := by
  unfold advance Batch.cursorRows
  cases w.batch.cursor w.fields <;> rfl

theorem Task.advance_congr (h : b.cursorRows names = b'.cursorRows names) (cancels flag : Bool)
    (t : Task) : t.advance ⟨b, names, cancels⟩ flag = t.advance ⟨b', names, cancels⟩ flag := by
  obtain ⟨n, phase⟩ := t
  cases phase with
  | opening => rw [advance_opening, advance_opening, h]
  | testing rows => cases rows <;> rfl
  | feeding | flagging | recording | done => rfl

theorem Run.step_congr (h : b.cursorRows names = b'.cursorRows names) (cancels : Bool) (run : Run)
    (position : Nat) :
    run.step ⟨b, names, cancels⟩ position = run.step ⟨b', names, cancels⟩ position := by
  unfold step
  cases run.tasks[position]? with
  | none => rfl
  | some t =>
    dsimp only
    rw [Task.advance_congr h]
    rfl

theorem Run.follow_congr (h : b.cursorRows names = b'.cursorRows names) (cancels : Bool) (run : Run)
    (schedule : List Nat) :
    run.follow ⟨b, names, cancels⟩ schedule = run.follow ⟨b', names, cancels⟩ schedule := by
  induction schedule generalizing run with
  | nil => rfl
  | cons position rest ih => rw [follow_cons, follow_cons, step_congr h, ih]

/-! ### Expressions -/

namespace Batch.SameView

variable (h : SameView names b b')

include h

theorem start_slot {n : Node} (hn : n.key ∈ names) (task : Node) :
    Task.start task (b.slot n) = Task.start task (b'.slot n) := by
  have hnone := h.position?_eq_none_iff hn
  unfold slot
  cases hposition : b.position? n.key with
  | none => rw [hnone.1 hposition]
  | some position =>
    cases hposition' : b'.position? n.key with
    | none =>
      rw [hnone.2 hposition'] at hposition
      cases hposition
    | some position' => rfl

theorem start_partition {nodes : List Node} (hkeys : ∀ n ∈ nodes, n.key ∈ names) :
    Run.start nodes (b.partition nodes) = Run.start nodes (b'.partition nodes) := by
  have htasks : nodes.map (fun n => Task.start n (b.slot n)) =
      nodes.map fun n => Task.start n (b'.slot n) :=
    List.map_congr_left fun n hn => h.start_slot (hkeys n hn) n
  unfold Run.start partition
  rw [List.zipWith_map_right, List.zipWith_map_right, List.zipWith_self, List.zipWith_self, htasks]

theorem output_slot (hb : b.WellFormed) (hb' : b'.WellFormed) {n : Node} (hn : n.key ∈ names)
    (after : Node) : after.output b (b.slot n) = after.output b' (b'.slot n) := by
  rcases view?_eq_view?_iff.1 (h.view? _ hn) with ⟨hnone, hnone'⟩ |
    ⟨position, position', column, column', hposition, hposition', hcolumn, hcolumn', htype, hvalues⟩
  · simp only [slot, hnone, hnone', Node.output]
  · have hlast : b.lastValue? position = b'.lastValue? position' := by
      rw [hb.lastValue?_eq_getLast? (lt_numColumns_of_position? hposition),
        hb'.lastValue?_eq_getLast? (lt_numColumns_of_position? hposition'), hvalues]
    -- Both columns bear the key as their name, so they are one and the same descriptor.
    have hsame : column = column' := by
      obtain ⟨c, hc, hname⟩ := exists_column_of_position? hposition
      obtain ⟨c', hc', hname'⟩ := exists_column_of_position? hposition'
      cases hcolumn.symm.trans hc
      cases hcolumn'.symm.trans hc'
      exact (Column.mk.injEq ..).mpr ⟨hname.trans hname'.symm, htype⟩
    simp only [slot, hposition, hposition', Node.output, hcolumn, hcolumn', hsame, hlast]

theorem materialize_partition_eq (hb : b.WellFormed) (hb' : b'.WellFormed) {nodes : List Node}
    (hkeys : ∀ n ∈ nodes, n.key ∈ names) (after : List Node) :
    materialize b after (b.partition nodes) = materialize b' after (b'.partition nodes) := by
  have houtputs : ((after.zip nodes).mapM fun task => task.1.output b (b.slot task.2)) =
      (after.zip nodes).mapM fun task => task.1.output b' (b'.slot task.2) :=
    mapM_congr fun task htask =>
      h.output_slot hb hb' (hkeys task.2 (List.of_mem_zip htask).2) task.1
  unfold materialize partition
  rw [List.zip_map_right, List.zip_map_right, List.mapM_map, List.mapM_map]
  exact congrArg (· >>= _) houtputs

/-! ### Reductions -/

theorem mayEnd_iff (hb : b.WellFormed) (hb' : b'.WellFormed) {fields : List String}
    (hfields : fields ⊆ names) {nodes : List Node} (hkeys : ∀ n ∈ nodes, n.key ∈ names)
    (cancels : Bool) (outcome : List Node × Option ReduceError) :
    Workload.MayEnd ⟨b, fields, cancels⟩ nodes (b.partition nodes) outcome ↔
      Workload.MayEnd ⟨b', fields, cancels⟩ nodes (b'.partition nodes) outcome := by
  unfold Workload.MayEnd
  refine exists_congr fun schedule => ?_
  rw [h.start_partition hkeys, Run.follow_congr ((h.mono hfields).cursorRows_eq hb hb')]

theorem mayReduceNodes (hb : b.WellFormed) (hb' : b'.WellFormed) {fields : List String}
    (hfields : fields ⊆ names) {nodes : List Node} (hkeys : ∀ n ∈ nodes, n.key ∈ names)
    {cancels : Bool} {result : Except ReduceError Batch}
    (hmay : b.MayReduceNodes cancels nodes fields result) :
    b'.MayReduceNodes cancels nodes fields result := by
  have hsub : Text.sortNames fields ⊆ names := fun name hname =>
    hfields (Text.mem_sortNames.1 hname)
  have hend := h.mayEnd_iff hb hb' hsub hkeys cancels
  cases hmay with
  | empty hrows => exact .empty (h.numRows ▸ hrows)
  | failed hrows hfailed => exact .failed (h.numRows ▸ hrows) ((hend _).1 hfailed)
  | @done after hrows hdone =>
    rw [h.materialize_partition_eq hb hb' hkeys after]
    exact .done (h.numRows ▸ hrows) ((hend _).1 hdone)

end Batch.SameView

namespace Batch

theorem SameView.symm (h : SameView names b b') : SameView names b' b :=
  ⟨h.numRows.symm, fun name hname => (h.view? name hname).symm⟩

/-- What the reductions by a plan can give is up to the views of the names in it. -/
theorem mayReduce_iff_of_sameView (hb : b.WellFormed) (hb' : b'.WellFormed) {plan : Plan}
    (h : ∀ nodes, plan.compile = .ok nodes →
      SameView (Node.leafColumns nodes ++ nodes.map Node.key) b b')
    (cancels : Bool) (result : Except ReduceError Batch) :
    b.MayReduce cancels plan result ↔ b'.MayReduce cancels plan result := by
  unfold MayReduce
  cases hcompile : plan.compile with
  | error e => rfl
  | ok nodes =>
    have hview := h nodes hcompile
    have hkeys : ∀ n ∈ nodes, n.key ∈ Node.leafColumns nodes ++ nodes.map Node.key :=
      fun n hn => List.mem_append_right _ (List.mem_map_of_mem hn)
    have hfields := List.subset_append_left (Node.leafColumns nodes) (nodes.map Node.key)
    exact ⟨hview.mayReduceNodes hb hb' hfields hkeys,
      hview.symm.mayReduceNodes hb' hb hfields hkeys⟩

theorem reduce_eq_of_mayReduce_iff {plan : Plan}
    (h : ∀ result, b.MayReduce false plan result ↔ b'.MayReduce false plan result) :
    b.reduce plan = b'.reduce plan :=
  mayReduce_iff_of_not_cancels.1 ((h _).1 (mayReduce_iff_of_not_cancels.2 rfl))

theorem WellFormed.sameView (hb : b.WellFormed) (hb' : b'.WellFormed)
    (hcolumns : b.columns = b'.columns) (hrows : b.rows = b'.rows) (names : List String) :
    SameView names b b' := by
  have hvalues : ∀ column, b.columnValues column = b'.columnValues column := by
    intro column
    rw [hb.columnValues_eq, hb'.columnValues_eq, hrows]
  refine ⟨?_, fun name _ => ?_⟩
  · rw [← length_rows, ← length_rows, hrows]
  · unfold Batch.view? position?
    simp only [hcolumns, hvalues]

/-- A reduction observes views only. Reachable batches with as many rows that show the same under
the leaf columns of a plan and under the keys of its expressions reduce alike, and where failures
cancel they can reduce alike. In particular a batch reduces as its rows written into a new batch. -/
theorem reduce_eq_of_sameViews (hb : b.Reachable) :
    (∀ b' : Batch, b'.Reachable → b.numRows = b'.numRows → ∀ plan : Plan,
      (∀ nodes, plan.compile = .ok nodes → ∀ name,
        (name ∈ Node.leafColumns nodes ∨ ∃ n ∈ nodes, n.key = name) →
          b.view? name = b'.view? name) →
      b.reduce plan = b'.reduce plan ∧
        ∀ cancels result, b.MayReduce cancels plan result ↔ b'.MayReduce cancels plan result) ∧
    ∃ restored, ofRows b.columns b.rows = .ok restored ∧
      ∀ plan, b.reduce plan = restored.reduce plan := by
  constructor
  · intro b' hb' hrows plan hview
    have hiff := mayReduce_iff_of_sameView hb.wellFormed hb'.wellFormed fun nodes hcompile =>
      ⟨hrows, fun name hname => hview nodes hcompile name <|
        (List.mem_append.1 hname).imp_right List.mem_map.1⟩
    exact ⟨reduce_eq_of_mayReduce_iff (hiff false), hiff⟩
  · obtain ⟨restored, hrestored, hcolumns, hrows⟩ := exists_ofRows fun row hrow =>
      hb.wellFormed.length_of_mem_rows hrow
    refine ⟨restored, hrestored, fun plan => reduce_eq_of_mayReduce_iff ?_⟩
    exact mayReduce_iff_of_sameView hb.wellFormed (Reachable.ofRows hrestored).wellFormed
      (fun nodes _ => hb.wellFormed.sameView (Reachable.ofRows hrestored).wellFormed hcolumns.symm
        hrows.symm _) false

def reordered : Batch :=
  ⟨[⟨"x", .int64⟩, ⟨"s", .string⟩],
    [#[.int64 5, .int64 1, .int64 9], #[.string "a", .null, .string "b"]], #[1, 0], 3⟩

theorem reordered_reachable : reordered.Reachable := by
  have hstored : ofColumns reordered.columns reordered.arrays =
      .ok { reordered with sequence := #[0, 1, 2] } := by rfl
  have hsequence : { reordered with sequence := #[0, 1, 2] }.withSequence #[1, 0] =
      .ok reordered := by rfl
  exact .withSequence (.ofColumns hstored) hsequence

def surrounded : Batch :=
  ⟨[⟨"flag", .bool⟩, ⟨"x", .int64⟩, ⟨"x", .string⟩],
    [#[.bool true, .bool false], #[.int64 1, .int64 5], #[.null, .null]], #[0, 1], 2⟩

theorem surrounded_reachable : surrounded.Reachable := by
  have hstored : ofColumns surrounded.columns surrounded.arrays = .ok surrounded := by rfl
  exact .ofColumns hstored

def sumAndLast : Plan := ⟨[.aggregate .sum (.column "x"), .column "x"]⟩

def sumAndLastNodes : List Node := [.ofAggregate .sum (.ofColumn "x"), .ofColumn "x"]

/-- The same values of one column in two layouts have the same sum and the same last value. -/
theorem reduce_reordered_surrounded :
    reordered.Reachable ∧ surrounded.Reachable ∧ reordered.numRows = surrounded.numRows ∧
      (∀ nodes, sumAndLast.compile = .ok nodes → ∀ name,
        (name ∈ Node.leafColumns nodes ∨ ∃ n ∈ nodes, n.key = name) →
          reordered.view? name = surrounded.view? name) ∧
      reordered.reduce sumAndLast = surrounded.reduce sumAndLast ∧
      (∃ out, surrounded.reduce sumAndLast = .ok out ∧ out.rows = [[.int64 6, .int64 5]]) ∧
      (∀ cancels result, reordered.MayReduce cancels sumAndLast result ↔
        surrounded.MayReduce cancels sumAndLast result) ∧
      ∃ restored, ofRows reordered.columns reordered.rows = .ok restored ∧
        reordered.reduce sumAndLast = restored.reduce sumAndLast := by
  have hcompile : sumAndLast.compile = .ok sumAndLastNodes := by rfl
  have hnames : Node.leafColumns sumAndLastNodes ++ sumAndLastNodes.map Node.key =
      ["x", "SUM(x)", "x"] := by rfl
  have hviews : ∀ name ∈ ["x", "SUM(x)", "x"], reordered.view? name = surrounded.view? name := by
    decide
  have hview : ∀ nodes, sumAndLast.compile = .ok nodes → ∀ name,
      (name ∈ Node.leafColumns nodes ∨ ∃ n ∈ nodes, n.key = name) →
        reordered.view? name = surrounded.view? name := by
    intro nodes hnodes name hname
    cases hcompile.symm.trans hnodes
    rw [← hnames] at hviews
    exact hviews name (List.mem_append.2 (hname.imp_right List.mem_map.2))
  obtain ⟨hall, restored, hrestored, hreduce⟩ := reduce_eq_of_sameViews reordered_reachable
  obtain ⟨hsame, hmay⟩ := hall surrounded surrounded_reachable rfl sumAndLast hview
  exact ⟨reordered_reachable, surrounded_reachable, rfl, hview, hsame, ⟨_, rfl, rfl⟩, hmay,
    restored, hrestored, hreduce sumAndLast⟩

end Batch

end Columnar
