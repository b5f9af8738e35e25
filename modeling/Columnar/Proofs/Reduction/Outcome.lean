import Columnar.Proofs.Batch.History
import Columnar.Proofs.Batch.WellFormed

/-!
# The outcome of a reduction

The expressions of a plan meet only in the end of a reduction: each has a contribution of its own, a
column with a value or an error, and the result puts them side by side. Two phases compete for the
error that is reported. The first failing task is reported before any contribution is asked for, so
`reduceNodes_eq` keeps the failures of the tasks apart from the contributions.
-/

namespace Columnar

/-! ### The collector -/

namespace Failures

variable {ε : Type}

theorem insertEntry_of_lt {position : Nat} (failure : ε) {entries : List (Nat × ε)}
    (h : ∀ entry ∈ entries, entry.1 < position) :
    insertEntry position failure entries = entries ++ [(position, failure)] := by
  induction entries with
  | nil => rfl
  | cons entry rest ih =>
    obtain ⟨hentry, hrest⟩ := List.forall_mem_cons.1 h
    obtain ⟨p, f⟩ := entry
    rw [insertEntry, if_neg (Nat.lt_asymm hentry), if_neg (Nat.ne_of_gt hentry), ih hrest]
    rfl

theorem entries_foldl {collect : Failures ε → Option ε × Nat → Failures ε}
    (hnone : ∀ failures position, collect failures (none, position) = failures)
    (hsome : ∀ failures failure position,
      collect failures (some failure, position) = failures.record position failure)
    (outcomes : List (Option ε)) {start : Nat} {failures : Failures ε}
    (hlt : ∀ entry ∈ failures.entries, entry.1 < start) :
    ((outcomes.zipIdx start).foldl collect failures).entries =
      failures.entries ++
        (outcomes.zipIdx start).filterMap fun task => task.1.map (task.2, ·) := by
  induction outcomes generalizing start failures with
  | nil => exact (List.append_nil _).symm
  | cons outcome rest ih =>
    rw [List.zipIdx_cons, List.foldl_cons, List.filterMap_cons]
    cases outcome with
    | none =>
      rw [hnone]
      exact ih fun entry hentry => Nat.lt_succ_of_lt (hlt entry hentry)
    | some failure =>
      have hrecord : (failures.record start failure).entries =
          failures.entries ++ [(start, failure)] := insertEntry_of_lt failure hlt
      have hlt' : ∀ entry ∈ (failures.record start failure).entries, entry.1 < start + 1 := by
        intro entry hentry
        rw [hrecord] at hentry
        rcases List.mem_append.1 hentry with hentry | hentry
        · exact Nat.lt_succ_of_lt (hlt entry hentry)
        · exact List.mem_singleton.1 hentry ▸ Nat.lt_succ_self start
      rw [hsome, ih hlt', hrecord, List.append_assoc]
      rfl

theorem entries_ofTasks (outcomes : List (Option ε)) :
    (ofTasks outcomes).entries =
      outcomes.zipIdx.filterMap fun task => task.1.map (task.2, ·) :=
  entries_foldl (fun _ _ => rfl) (fun _ _ _ => rfl) outcomes (by simp [empty])

theorem takeFirst_ofTasks (outcomes : List (Option ε)) :
    (ofTasks outcomes).takeFirst.1.map Prod.snd = outcomes.findSome? id := by
  have hhead : ∀ failures : Failures ε, failures.takeFirst.1 = failures.entries.head? := by
    rintro ⟨_ | ⟨entry, rest⟩⟩ <;> rfl
  have hfind : ∀ start : Nat,
      ((outcomes.zipIdx start).findSome? fun task => task.1.map (task.2, ·)).map Prod.snd =
        outcomes.findSome? id := by
    induction outcomes with
    | nil => intro start; rfl
    | cons outcome rest ih =>
      intro start
      rw [List.zipIdx_cons, List.findSome?_cons, List.findSome?_cons]
      cases outcome with
      | none => exact ih (start + 1)
      | some failure => rfl
  rw [hhead, entries_ofTasks, List.head?_filterMap]
  exact hfind 0

end Failures

/-! ### One expression -/

def Node.task (b : Batch) (fields : List String) (n : Node) : Node × Option ReduceError :=
  n.runTask b fields (b.slot n)

/-- The output column of an expression and its value, or the error of its task or its result. -/
def Node.contribution (b : Batch) (fields : List String) (n : Node) :
    Except ReduceError (Column × Value) :=
  match n.task b fields with
  | (_, some e) => .error e
  | (after, none) => after.output b (b.slot n)

theorem Node.contribution_of_task {b : Batch} {fields : List String} {n : Node}
    (h : (n.task b fields).2 = none) :
    n.contribution b fields = (n.task b fields).1.output b (b.slot n) := by
  unfold Node.contribution
  rcases htask : n.task b fields with ⟨after, _ | e⟩
  · rfl
  · rw [htask] at h
    cases h

theorem Node.contribution_of_failure {b : Batch} {fields : List String} {n : Node}
    {e : ReduceError} (h : (n.task b fields).2 = some e) :
    n.contribution b fields = .error e := by
  unfold Node.contribution
  rcases htask : n.task b fields with ⟨after, _ | d⟩
  · rw [htask] at h
    cases h
  · rw [htask] at h
    rw [Option.some.inj h]

/-! ### Folding -/

theorem Node.foldBatch_of_hasColumns {b : Batch} {names : List String} (h : b.HasColumns names)
    (n : Node) :
    n.foldBatch b names =
      ((feed (b.sequence.toList.map (b.projectedRow names)) n).1,
        (feed (b.sequence.toList.map (b.projectedRow names)) n).2.map Fault.report) := by
  obtain ⟨c, hcursor, hrest⟩ := Batch.exists_cursor h
  simp only [foldBatch, hcursor, hrest]

theorem Node.foldBatch_of_unknown {b : Batch} {names : List String} {name : String}
    (h : First (fun name => b.position? name = none) names name) (n : Node) :
    n.foldBatch b names = (n, some (.unknownColumn name)) := by
  simp only [foldBatch, Batch.cursor_of_unknown h]

theorem Node.foldBatch_congr {b : Batch} {names others : List String} {n : Node}
    (hnames : b.HasColumns names) (hothers : b.HasColumns others)
    (hsub : n.columnNames ⊆ names) (hsub' : n.columnNames ⊆ others) :
    n.foldBatch b names = n.foldBatch b others := by
  have hfeed : feed (b.sequence.toList.map (b.projectedRow names)) n =
      feed (b.sequence.toList.map (b.projectedRow others)) n := by
    refine feed_map_congr fun physical _ name hname => ?_
    rw [Batch.get?_projectedRow, Batch.get?_projectedRow, if_pos (hsub hname),
      if_pos (hsub' hname)]
  rw [foldBatch_of_hasColumns hnames, foldBatch_of_hasColumns hothers, hfeed]

theorem Node.foldBatch_eq_feed_history {b : Batch} (hb : b.arrays.length = b.columns.length)
    {names : List String} {n : Node} (hnames : b.HasColumns names)
    (hsub : n.columnNames ⊆ names) :
    n.foldBatch b names = ((feed b.history n).1, (feed b.history n).2.map Fault.report) := by
  have hfeed : feed (b.sequence.toList.map (b.projectedRow names)) n = feed b.history n := by
    unfold Batch.history Batch.rows
    rw [List.map_map]
    exact feed_map_congr fun physical _ => (Batch.agreeOn_projectedRow hb hnames physical).mono hsub
  rw [foldBatch_of_hasColumns hnames, hfeed]

/-- The node after the logical rows in order, each cut down to the given columns, and what it fails
with. A column that the batch lacks is a failure before the first row. -/
def Node.foldHistory (b : Batch) (names : List String) (n : Node) : Node × Option ReduceError :=
  match names.find? fun name => b.position? name = none with
  | some name => (n, some (.unknownColumn name))
  | none =>
    ((feed (b.history.map (Row.only names)) n).1,
      (feed (b.history.map (Row.only names)) n).2.map Fault.report)

/-- A task folds the logical rows, whatever columns it reads. -/
theorem Node.foldBatch_eq_foldHistory {b : Batch} (hb : b.arrays.length = b.columns.length)
    (names : List String) (n : Node) : n.foldBatch b names = n.foldHistory b names := by
  unfold foldHistory
  by_cases h : b.HasColumns names
  · have hfeed : feed (b.sequence.toList.map (b.projectedRow names)) n =
        feed (b.history.map (Row.only names)) n := by
      unfold Batch.history Batch.rows
      rw [List.map_map, List.map_map]
      exact feed_map_congr fun physical _ name _ =>
        Batch.get?_projectedRow_eq_only hb h physical name
    rw [h.find?_eq_none, foldBatch_of_hasColumns h, hfeed]
  · obtain ⟨name, hfirst⟩ := Batch.exists_first_unknown h
    rw [hfirst.find?_eq_some, foldBatch_of_unknown hfirst]

/-! ### All expressions -/

theorem zip_partition (b : Batch) (nodes : List Node) :
    nodes.zip (b.partition nodes) = nodes.map fun n => (n, b.slot n) :=
  List.map_prod_left_eq_zip.symm

theorem evaluate_partition (b : Batch) (fields : List String) (nodes : List Node) :
    evaluate b fields nodes (b.partition nodes) =
      (nodes.map fun n => (n.task b fields).1, nodes.findSome? fun n => (n.task b fields).2) := by
  unfold evaluate
  dsimp only
  rw [Failures.takeFirst_ofTasks, zip_partition]
  simp only [List.map_map, List.findSome?_map]
  rfl

namespace Batch

def ofOutputs (outputs : List (Column × Value)) : Batch :=
  ⟨outputs.map Prod.fst, outputs.map fun output => #[output.2], #[0], 1⟩

@[simp] theorem rows_ofOutputs (outputs : List (Column × Value)) :
    (ofOutputs outputs).rows = [outputs.map Prod.snd] := by
  change [(outputs.map fun output => #[output.2]).map fun a => a[0]?.getD .null] = _
  rw [List.map_map]
  rfl

theorem writeRow_new (outputs : List (Column × Value)) :
    (new (outputs.map Prod.fst)).writeRow (outputs.map Prod.snd) = (ofOutputs outputs, none) := by
  have hlength : (outputs.map Prod.snd).length = (new (outputs.map Prod.fst)).numColumns := by
    rw [List.length_map]
    exact (List.length_map _).symm
  refine writeRow_eq_ok_iff.2 ⟨hlength, ?_⟩
  rw [pushEach_eq_zipWith ((new_wellFormed _).arrays_length.trans hlength.symm)]
  unfold ofOutputs new
  simp [List.zipWith_map]

end Batch

theorem materialize_partition (b : Batch) (nodes : List Node) (after : Node → Node) :
    materialize b (nodes.map after) (b.partition nodes) =
      (nodes.mapM fun n => (after n).output b (b.slot n)).map Batch.ofOutputs := by
  have hzip : (nodes.map after).zip (b.partition nodes) =
      nodes.map fun n => (after n, b.slot n) := List.zip_map' ..
  unfold materialize
  rw [hzip, List.mapM_map]
  change (nodes.mapM fun n => (after n).output b (b.slot n)) >>= _ = _
  cases nodes.mapM fun n => (after n).output b (b.slot n) with
  | error e => rfl
  | ok outputs => exact stepOutcome_eq_ok_iff.2 (Batch.writeRow_new outputs)

namespace Batch

variable {b : Batch} {nodes : List Node} {fields : List String}

/-- The first failing task ends the reduction. If there is none, the contributions make the row. -/
theorem reduceNodes_eq (hrows : b.numRows ≠ 0) (nodes : List Node) (fields : List String) :
    (b.reduceNodes nodes fields).2 =
      match nodes.findSome? fun n => (n.task b (Text.sortNames fields)).2 with
      | some e => .error e
      | none => (nodes.mapM (Node.contribution b (Text.sortNames fields))).map ofOutputs := by
  unfold reduceNodes
  rw [if_neg hrows]
  dsimp only
  rw [evaluate_partition]
  cases hfailure : nodes.findSome? fun n => (n.task b (Text.sortNames fields)).2 with
  | some e => rfl
  | none =>
    dsimp only
    rw [materialize_partition]
    congr 1
    refine mapM_congr fun n hn => (Node.contribution_of_task ?_).symm
    exact List.findSome?_eq_none_iff.1 hfailure n hn

/-- A reduction succeeds exactly when every expression contributes, with their contributions. -/
theorem reduceNodes_eq_ok_iff (hrows : b.numRows ≠ 0) {out : Batch} :
    (b.reduceNodes nodes fields).2 = .ok out ↔
      ∃ outputs, List.Forall₂
        (fun n output => Node.contribution b (Text.sortNames fields) n = .ok output)
        nodes outputs ∧ out = ofOutputs outputs := by
  rw [reduceNodes_eq hrows]
  simp only [← mapM_eq_ok_iff]
  cases hfailure : nodes.findSome? fun n => (n.task b (Text.sortNames fields)).2 with
  | none =>
    cases nodes.mapM (Node.contribution b (Text.sortNames fields)) with
    | error e => simp [Except.map]
    | ok outputs => simp [Except.map, eq_comm]
  | some e =>
    obtain ⟨n, hfirst, hn⟩ := findSome?_eq_some_iff_first.1 hfailure
    refine ⟨fun h => ?_, fun ⟨outputs, h, _⟩ => ?_⟩
    · cases h
    · obtain ⟨output, -, houtput⟩ := exists_of_mapM_eq_ok h hfirst.mem
      cases houtput.symm.trans (Node.contribution_of_failure hn)

/-- The failing task of the first expression that has one is reported, and without one the first
expression whose result fails. -/
theorem reduceNodes_eq_error_iff (hrows : b.numRows ≠ 0) {e : ReduceError} :
    (b.reduceNodes nodes fields).2 = .error e ↔
      (∃ n, First (fun n => ∃ e, (n.task b (Text.sortNames fields)).2 = some e) nodes n ∧
        (n.task b (Text.sortNames fields)).2 = some e) ∨
      (∀ n ∈ nodes, (n.task b (Text.sortNames fields)).2 = none) ∧
        ∃ n, First (fun n => ∃ e, n.contribution b (Text.sortNames fields) = .error e) nodes n ∧
          n.contribution b (Text.sortNames fields) = .error e := by
  rw [reduceNodes_eq hrows, ← findSome?_eq_some_iff_first, ← mapM_eq_error_iff,
    ← List.findSome?_eq_none_iff]
  cases nodes.findSome? fun n => (n.task b (Text.sortNames fields)).2 with
  | some d => simp
  | none =>
    cases nodes.mapM (Node.contribution b (Text.sortNames fields)) <;> simp [Except.map]

/-- The error of a reduction is the contribution of one of its expressions. -/
theorem exists_contribution_of_reduceNodes (hrows : b.numRows ≠ 0) {e : ReduceError}
    (h : (b.reduceNodes nodes fields).2 = .error e) :
    ∃ n ∈ nodes, n.contribution b (Text.sortNames fields) = .error e := by
  rcases (reduceNodes_eq_error_iff hrows).1 h with ⟨n, hfirst, hn⟩ | ⟨-, n, hfirst, hn⟩
  · exact ⟨n, hfirst.mem, Node.contribution_of_failure hn⟩
  · exact ⟨n, hfirst.mem, hn⟩

theorem reduceNodes_singleton (hrows : b.numRows ≠ 0) (n : Node) (fields : List String) :
    (b.reduceNodes [n] fields).2 =
      (n.contribution b (Text.sortNames fields)).map fun output => ofOutputs [output] := by
  rw [reduceNodes_eq hrows, List.findSome?_singleton]
  cases htask : (n.task b (Text.sortNames fields)).2 with
  | some e =>
    rw [Node.contribution_of_failure htask]
    rfl
  | none =>
    rw [List.mapM_cons, List.mapM_nil]
    cases n.contribution b (Text.sortNames fields) <;> rfl

end Batch

end Columnar
