import Columnar.Proofs.Batch.Records
import Columnar.Proofs.Reduction.Outcome

/-!
# What every reachable batch can be relied on for

Reading a batch is written with defaults: a value that is not there is a null in a row or a tuple of
a cursor, and is passed over when a column is written out. After any history of calls, successful
or not, the arrays and the sequence of a batch fit together, and so no default is ever used: each
row, tuple and column has the values that are there, one for every logical row. A reduction in
particular finds the last row it looks for, and its own row fits its columns.
-/

namespace Columnar

namespace Batch

variable {b : Batch}

/-! ### What is read is there -/

/-- To go through the logical rows is to go through the sequence. -/
theorem map_range_sequence {α : Type} (b : Batch) (f : Option Nat → α) :
    ((List.range b.numRows).map fun row => f b.sequence[row]?) =
      b.sequence.toList.map fun physical => f (some physical) := by
  refine List.ext_getElem (by simp [numRows]) fun row hrow _ => ?_
  have hlt : row < b.sequence.size := by simpa [numRows] using hrow
  simp only [List.getElem_map, List.getElem_range, Array.getElem_toList,
    Array.getElem?_eq_getElem hlt]

theorem WellFormed.map_some_rows (hb : b.WellFormed) :
    (b.rows.map fun row => row.map some) =
      (List.range b.numRows).map fun row => (List.range b.numColumns).map (b.value? row) := by
  refine Eq.trans ?_ (b.map_range_sequence fun physical =>
    (List.range b.numColumns).map fun column => physical.bind (b.physicalValue? column)).symm
  unfold rows
  rw [List.map_map]
  refine List.map_congr_left fun physical hphysical => ?_
  have hlt := hb.sequence_lt physical (Array.mem_toList_iff.1 hphysical)
  refine List.ext_getElem (by simp [hb.length_physicalRow]) fun column hcolumn _ => ?_
  have hcolumn : column < (b.physicalRow physical).length := by simpa using hcolumn
  simp only [Function.comp_apply, List.getElem_map, List.getElem_range, Option.bind_some]
  rw [← hb.getElem?_physicalRow hlt, List.getElem?_eq_getElem hcolumn]

theorem lt_numColumns_of_cursor {names : List String} {c : Cursor} (hc : b.cursor names = .ok c)
    {q : Nat × Column} (hq : q ∈ c.projection) : q.1 < b.numColumns := by
  obtain ⟨projection, hprojection, rfl⟩ := cursor_eq_ok_iff.1 hc
  exact forall_of_mapM_eq_ok (p := fun q => q.1 < b.numColumns) hprojection
    (fun _ _ _ hlocate => lt_numColumns_of_position? (position?_of_locate hlocate)) q hq

theorem WellFormed.map_some_rest (hb : b.WellFormed) {names : List String} {c : Cursor}
    (hc : b.cursor names = .ok c) :
    (c.rest.map fun tuple => tuple.map some) =
      (List.range b.numRows).map fun row => c.projection.map fun q => b.value? row q.1 := by
  have hcolumns : ∀ q ∈ c.projection, q.1 < b.numColumns := fun q => lt_numColumns_of_cursor hc
  obtain ⟨projection, -, rfl⟩ := cursor_eq_ok_iff.1 hc
  refine Eq.trans ?_ (b.map_range_sequence fun physical =>
    projection.map fun q => physical.bind (b.physicalValue? q.1)).symm
  unfold Cursor.rest
  rw [List.drop_zero, List.map_map]
  refine List.map_congr_left fun physical hphysical => ?_
  change List.map some (projection.map fun q => (b.physicalValue? q.1 physical).getD .null) = _
  rw [List.map_map]
  exact List.map_congr_left fun q hq =>
    hb.some_getD_physicalValue? (hcolumns q hq) (Array.mem_toList_iff.1 hphysical)

theorem WellFormed.map_some_columnValues (hb : b.WellFormed) {column : Nat}
    (h : column < b.numColumns) :
    (b.columnValues column).map some = (List.range b.numRows).map (b.value? · column) := by
  refine Eq.trans ?_ (b.map_range_sequence fun physical =>
    physical.bind (b.physicalValue? column)).symm
  rw [hb.columnValues_eq_map h, List.map_map]
  exact List.map_congr_left fun physical hphysical =>
    hb.some_getD_physicalValue? h (Array.mem_toList_iff.1 hphysical)

/-! ### Reductions -/

/-- A slot of the batch's own has a value to pass through. -/
theorem WellFormed.output_slot_eq_error (hb : b.WellFormed) (hrows : b.numRows ≠ 0)
    {n source : Node} {e : ReduceError} (h : n.output b (b.slot source) = .error e) :
    ∃ d, n.finalize = .error d ∧ e = .eval d := by
  cases hposition : b.position? source.key with
  | some position =>
    obtain ⟨column, hcolumn, -⟩ := exists_column_of_position? hposition
    obtain ⟨v, hlast, -⟩ := hb.exists_lastValue? hrows hcolumn
    simp only [slot, hposition, Node.output, hcolumn, hlast] at h
    cases h
  | none =>
    simp only [slot, hposition, Node.output] at h
    cases hfinalize : n.finalize with
    | ok v =>
      rw [hfinalize] at h
      cases h
    | error d =>
      rw [hfinalize] at h
      exact ⟨d, rfl, (Except.error.inj h).symm⟩

/-- The row of a result fails for no other reason than that an expression has no result. -/
theorem WellFormed.materialize_eq_error (hb : b.WellFormed) (hrows : b.numRows ≠ 0)
    {nodes sources : List Node} {e : ReduceError}
    (h : materialize b nodes (b.partition sources) = .error e) :
    ∃ n ∈ nodes, ∃ d, n.finalize = .error d ∧ e = .eval d := by
  unfold materialize at h
  rcases bind_eq_error_iff.1 h with houtput | ⟨outputs, -, hwrite⟩
  · -- The first output that fails is computed, as one that is passed through has a last value.
    obtain ⟨⟨n, slot⟩, hfirst, he⟩ := mapM_eq_error_iff.1 houtput
    obtain ⟨hn, hslot⟩ := List.of_mem_zip hfirst.mem
    obtain ⟨source, -, rfl⟩ := List.mem_map.1 hslot
    exact ⟨n, hn, hb.output_slot_eq_error hrows he⟩
  · rw [writeRow_new outputs] at hwrite
    cases hwrite

end Batch

/-- A task fails for want of a column, or with what a step of its node fails with. -/
theorem Node.task_failure {b : Batch} {fields : List String} {n : Node} {e : ReduceError}
    (h : (n.task b fields).2 = some e) :
    (∃ name, e = .unknownColumn name) ∨ ∃ failure : Fault, e = failure.report := by
  unfold task at h
  cases hslot : b.slot n with
  | passThrough position =>
    rw [hslot] at h
    cases h
  | computed =>
    rw [hslot] at h
    by_cases hfields : b.HasColumns fields
    · change (n.foldBatch b fields).2 = some e at h
      rw [foldBatch_of_hasColumns hfields] at h
      obtain ⟨failure, -, rfl⟩ := Option.map_eq_some_iff.1 h
      exact .inr ⟨failure, rfl⟩
    · obtain ⟨name, hfirst⟩ := Batch.exists_first_unknown hfields
      change (n.foldBatch b fields).2 = some e at h
      rw [foldBatch_of_unknown hfirst] at h
      exact .inl ⟨name, (Option.some.inj h).symm⟩

namespace Batch

theorem WellFormed.reduceNodes_eq_error {b : Batch} (hb : b.WellFormed) {nodes : List Node}
    {fields : List String} {e : ReduceError} (h : (b.reduceNodes nodes fields).2 = .error e) :
    (∃ name, e = .unknownColumn name) ∨ (∃ d, e = .eval d) ∨
      ∃ detail, e = .threadPanic detail := by
  have hrows : b.numRows ≠ 0 := by
    intro hzero
    unfold reduceNodes at h
    rw [if_pos hzero] at h
    cases h
  obtain ⟨n, -, he⟩ := exists_contribution_of_reduceNodes hrows h
  cases hfailure : (n.task b (Text.sortNames fields)).2 with
  | none =>
    rw [Node.contribution_of_task hfailure] at he
    obtain ⟨d, -, rfl⟩ := hb.output_slot_eq_error hrows he
    exact .inr (.inl ⟨d, rfl⟩)
  | some failure =>
    rw [Node.contribution_of_failure hfailure] at he
    cases he
    rcases Node.task_failure hfailure with hunknown | ⟨fault, rfl⟩
    · exact .inl hunknown
    · cases fault with
      | eval d => exact .inr (.inl ⟨d, rfl⟩)
      | panic payload => exact .inr (.inr ⟨_, rfl⟩)

/-- No default is ever used. After any history of calls, of which some may have failed, the arrays
and the sequence fit the columns. So there is a value wherever a logical row and a column meet; the
rows, the tuples of a cursor and the columns written out consist of such values, one for each
logical row; and a reduction finds its last row and fits its own columns. -/
theorem afterCalls_representation (calls : List Call) {b : Batch} (hb : b = afterCalls calls) :
    b.WellFormed ∧
    (∀ row column, (b.value? row column).isSome ↔ row < b.numRows ∧ column < b.numColumns) ∧
    ((∀ physical ∈ b.sequence, ∀ a ∈ b.arrays, physical < a.size) ∧
      (b.rows.map fun row => row.map some) =
        (List.range b.numRows).map fun row => (List.range b.numColumns).map (b.value? row)) ∧
    (∀ names c, b.cursor names = .ok c →
      (∀ physical ∈ b.sequence, ∀ q ∈ c.projection, (b.physicalValue? q.1 physical).isSome) ∧
      (c.rest.map fun tuple => tuple.map some) =
        (List.range b.numRows).map fun row => c.projection.map fun q => b.value? row q.1) ∧
    (b.numRows ≠ 0 → ∀ nodes sources e, materialize b nodes (b.partition sources) = .error e →
      ∃ n ∈ nodes, ∃ d, n.finalize = .error d ∧ e = .eval d) ∧
    (∀ nodes fields e, (b.reduceNodes nodes fields).2 = .error e →
      (∃ name, e = .unknownColumn name) ∨ (∃ d, e = .eval d) ∨
        ∃ detail, e = .threadPanic detail) ∧
    (∀ column < b.numColumns,
      (b.columnValues column).map some = (List.range b.numRows).map (b.value? · column)) ∧
    ∀ record, b.toRecordBatch = .ok record →
      record.fields.length = b.numColumns ∧ record.numRows = b.numRows ∧
        ∀ field ∈ record.fields, field.cells.length = b.numRows := by
  have hwf : b.WellFormed := hb ▸ (reachable_afterCalls calls).wellFormed
  refine ⟨hwf, fun row column => hwf.isSome_value?_iff, ⟨?_, hwf.map_some_rows⟩,
    fun names c hc => ⟨?_, hwf.map_some_rest hc⟩, ?_, ?_, ?_, ?_⟩
  · intro physical hphysical a ha
    exact hwf.array_size a ha ▸ hwf.sequence_lt physical hphysical
  · intro physical hphysical q hq
    obtain ⟨v, hv, -⟩ := hwf.exists_of_mem_sequence (lt_numColumns_of_cursor hc hq) hphysical
    exact Option.isSome_iff_exists.2 ⟨v, hv⟩
  · exact fun hrows nodes sources e h => hwf.materialize_eq_error hrows h
  · exact fun nodes fields e h => hwf.reduceNodes_eq_error h
  · exact fun column hcolumn => hwf.map_some_columnValues hcolumn
  · exact fun record h => hwf.length_fields h

/-- Rows are written, put in another order with one of them twice, and written again, with calls
in between that fail. -/
def mixedCalls : List Call :=
  [.new [⟨"x", .int64⟩, ⟨"s", .string⟩], .writeRow [.int64 1, .string "a"], .writeRow [.int64 2],
    .writeRow [.int64 3, .null], .withSequence #[1, 0, 1], .withSequence #[2],
    .reduce ⟨[.named (.column "x") ""]⟩, .writeRow [.null, .string "b"]]

def mixedBatch : Batch :=
  ⟨[⟨"x", .int64⟩, ⟨"s", .string⟩],
    [#[.int64 1, .int64 3, .null], #[.string "a", .null, .string "b"]], #[1, 0, 1, 2], 3⟩

def overZero : Node := .ofBinary (.constant (.int64 1)) (.arithmetic .div) (.constant (.int64 0))

/-- What the calls leave can be read, written out and reduced as it should. -/
theorem afterCalls_representation_mixedCalls :
    mixedBatch = afterCalls mixedCalls ∧ mixedBatch.WellFormed ∧
      (mixedBatch.value? 3 1).isSome ∧ ¬ (mixedBatch.value? 4 1).isSome ∧
      (∃ c, mixedBatch.cursor ["s", "s"] = .ok c ∧
        (c.rest.map fun tuple => tuple.map some) = (List.range mixedBatch.numRows).map fun row =>
          c.projection.map fun q => mixedBatch.value? row q.1) ∧
      (mixedBatch.numRows ≠ 0 ∧ ∃ e,
        materialize mixedBatch [overZero] (mixedBatch.partition [overZero]) = .error e ∧
          ∃ n ∈ [overZero], ∃ d, n.finalize = .error d ∧ e = .eval d) ∧
      (∃ e, (mixedBatch.reduceNodes [overZero] []).2 = .error e ∧
        ((∃ name, e = .unknownColumn name) ∨ (∃ d, e = .eval d) ∨
          ∃ detail, e = .threadPanic detail)) ∧
      (1 < mixedBatch.numColumns ∧ (mixedBatch.columnValues 1).map some =
        (List.range mixedBatch.numRows).map (mixedBatch.value? · 1)) ∧
      ∃ record, mixedBatch.toRecordBatch = .ok record ∧ record.numRows = mixedBatch.numRows := by
  have hb : mixedBatch = afterCalls mixedCalls := by rfl
  have hrows : mixedBatch.numRows ≠ 0 := by decide
  have hopened : mixedBatch.cursor ["s", "s"] =
      .ok ⟨mixedBatch, [(1, ⟨"s", .string⟩), (1, ⟨"s", .string⟩)], 0⟩ := by rfl
  have hmaterialized : materialize mixedBatch [overZero] (mixedBatch.partition [overZero]) =
      .error (.eval .divisionByZero) := by rfl
  have hreduced : (mixedBatch.reduceNodes [overZero] []).2 =
      .error (.eval .divisionByZero) := by rfl
  have hwritten : mixedBatch.toRecordBatch = .ok
      ⟨[⟨"x", true, .int64 [some 3, some 1, some 3, none]⟩,
        ⟨"s", true, .utf8 [none, some "a", none, some "b"]⟩]⟩ := by rfl
  obtain ⟨hwf, hvalue, -, hcursor, hmaterialize, hreduce, hcolumn, hrecord⟩ :=
    afterCalls_representation mixedCalls hb
  exact ⟨hb, hwf, (hvalue 3 1).2 (by decide), fun h => absurd ((hvalue 4 1).1 h) (by decide),
    ⟨_, hopened, (hcursor _ _ hopened).2⟩,
    ⟨hrows, _, hmaterialized, hmaterialize hrows _ _ _ hmaterialized⟩,
    ⟨_, hreduced, hreduce _ _ _ hreduced⟩, ⟨by decide, hcolumn 1 (by decide)⟩,
    _, hwritten, (hrecord _ hwritten).2.1⟩

end Batch

end Columnar
