import Columnar.Proofs.Batch.WellFormed

/-!
# A batch is its rows

What can be read from a well-formed batch, value by value, at the last row or along a column, is
read from its list of rows. The values stand in arrays with an order of their own, and nothing shows
of either: a row that is written is one more row in the list, and any list of rows that fit the
columns is that of some batch.
-/

namespace Columnar

namespace Batch

variable {b : Batch}

/-! ### One row -/

@[simp] theorem length_rows (b : Batch) : b.rows.length = b.numRows := List.length_map _

theorem WellFormed.length_physicalRow (hb : b.WellFormed) (physical : Nat) :
    (b.physicalRow physical).length = b.numColumns :=
  (List.length_map _).trans hb.arrays_length

theorem WellFormed.length_of_mem_rows (hb : b.WellFormed) {row : List Value}
    (h : row ∈ b.rows) : row.length = b.numColumns := by
  obtain ⟨physical, -, rfl⟩ := List.mem_map.1 h
  exact hb.length_physicalRow physical

/-- Every array has a value at the positions in use, so no row is made up of defaults. -/
theorem WellFormed.getElem?_physicalRow (hb : b.WellFormed) {physical : Nat}
    (h : physical < b.physicalRows) (column : Nat) :
    (b.physicalRow physical)[column]? = b.physicalValue? column physical := by
  by_cases hcolumn : column < b.numColumns
  · obtain ⟨v, hvalue, hrow⟩ := hb.exists_physicalValue? (List.getElem?_eq_getElem hcolumn) h
    rw [hvalue, hrow]
  · have harray : b.arrays[column]? = none :=
      List.getElem?_eq_none (by rw [hb.arrays_length]; exact Nat.le_of_not_lt hcolumn)
    rw [List.getElem?_eq_none (by rw [hb.length_physicalRow]; exact Nat.le_of_not_lt hcolumn)]
    unfold physicalValue?
    rw [harray]
    rfl

theorem getElem?_rows (b : Batch) (row : Nat) :
    b.rows[row]? = (b.sequence[row]?).map b.physicalRow := by
  unfold rows
  rw [List.getElem?_map, Array.getElem?_toList]

theorem WellFormed.value?_eq (hb : b.WellFormed) (row column : Nat) :
    b.value? row column = b.rows[row]?.bind (·[column]?) := by
  rw [getElem?_rows]
  unfold value?
  cases hphysical : b.sequence[row]? with
  | none => rfl
  | some physical =>
    have hlt := hb.sequence_lt physical (Array.mem_of_getElem? hphysical)
    exact (hb.getElem?_physicalRow hlt column).symm

theorem lastValue?_eq_value? (b : Batch) (column : Nat) :
    b.lastValue? column = b.value? (b.numRows - 1) column := by
  unfold lastValue? value? numRows
  rw [Array.back?_eq_getElem?]

/-- There is a value exactly where a row and a column meet. -/
theorem WellFormed.isSome_value?_iff (hb : b.WellFormed) {row column : Nat} :
    (b.value? row column).isSome ↔ row < b.numRows ∧ column < b.numColumns := by
  rw [hb.value?_eq]
  by_cases hrow : row < b.numRows
  · have hlt : row < b.rows.length := by
      rw [length_rows]
      exact hrow
    rw [List.getElem?_eq_getElem hlt, Option.bind_some, isSome_getElem?,
      hb.length_of_mem_rows (List.getElem_mem hlt)]
    exact (and_iff_right hrow).symm
  · rw [List.getElem?_eq_none (by rw [length_rows]; exact Nat.le_of_not_lt hrow)]
    simp [hrow]

/-! ### One column -/

/-- What a list has at all its positions in turn is the list. -/
theorem filterMap_range_getElem? {α β : Type} (l : List α) (f : α → Option β) :
    ((List.range l.length).filterMap fun i => l[i]?.bind f) = l.filterMap f := by
  induction l with
  | nil => rfl
  | cons a rest ih =>
    rw [List.length_cons, List.range_succ_eq_map, List.filterMap_cons, List.filterMap_cons,
      List.filterMap_map]
    cases h : f a with
    | none => simpa [h] using ih
    | some v => simpa [h] using ih

/-- A column's values in logical order are its entries in the rows. -/
theorem WellFormed.columnValues_eq (hb : b.WellFormed) (column : Nat) :
    b.columnValues column = b.rows.filterMap (·[column]?) := by
  unfold columnValues
  rw [← filterMap_range_getElem? b.rows, length_rows]
  exact List.filterMap_congr fun row _ => hb.value?_eq row column

/-- Where the sequence points, every column has a value. -/
theorem WellFormed.exists_of_mem_sequence (hb : b.WellFormed) {column physical : Nat}
    (hcolumn : column < b.numColumns) (hphysical : physical ∈ b.sequence) :
    ∃ v, b.physicalValue? column physical = some v ∧
      (b.physicalRow physical)[column]? = some v :=
  hb.exists_physicalValue? (List.getElem?_eq_getElem hcolumn) (hb.sequence_lt physical hphysical)

theorem WellFormed.some_getD_physicalValue? (hb : b.WellFormed) {column physical : Nat}
    (hcolumn : column < b.numColumns) (hphysical : physical ∈ b.sequence) :
    some ((b.physicalValue? column physical).getD .null) = b.physicalValue? column physical := by
  obtain ⟨v, hv, -⟩ := hb.exists_of_mem_sequence hcolumn hphysical
  rw [hv, Option.getD_some]

theorem WellFormed.columnValues_eq_map (hb : b.WellFormed) {column : Nat}
    (h : column < b.numColumns) :
    b.columnValues column =
      b.sequence.toList.map fun physical => (b.physicalValue? column physical).getD .null := by
  rw [hb.columnValues_eq, ← List.filterMap_eq_map]
  unfold rows
  rw [List.filterMap_map]
  refine List.filterMap_congr fun physical hphysical => ?_
  obtain ⟨v, hv, hrow⟩ := hb.exists_of_mem_sequence h (Array.mem_toList_iff.1 hphysical)
  simp only [Function.comp_apply, hv, hrow, Option.getD_some]

theorem WellFormed.length_columnValues (hb : b.WellFormed) {column : Nat}
    (h : column < b.numColumns) : (b.columnValues column).length = b.numRows := by
  rw [hb.columnValues_eq_map h, List.length_map]
  rfl

theorem WellFormed.lastValue?_eq_getLast? (hb : b.WellFormed) {column : Nat}
    (h : column < b.numColumns) : b.lastValue? column = (b.columnValues column).getLast? := by
  rw [hb.columnValues_eq_map h, List.getLast?_map, Array.getLast?_toList]
  unfold lastValue?
  cases hlast : b.sequence.back? with
  | none => rfl
  | some physical => exact (hb.some_getD_physicalValue? h (Array.mem_of_back? hlast)).symm

/-! ### Writing rows -/

variable {after : Batch} {row : List Value}

theorem WellFormed.physicalRow_writeRow (hb : b.WellFormed) (h : b.writeRow row = (after, none))
    {physical : Nat} (hphysical : physical < b.physicalRows) :
    after.physicalRow physical = b.physicalRow physical := by
  obtain ⟨hlength, rfl⟩ := writeRow_eq_ok_iff.1 h
  have harrays : b.arrays.length = row.length := hb.arrays_length.trans hlength.symm
  rw [pushEach_eq_zipWith harrays]
  refine List.ext_getElem (by simp [physicalRow, harrays]) fun column _ hcolumn => ?_
  have hcolumn : column < b.arrays.length := by simpa [physicalRow] using hcolumn
  have hsize : physical < b.arrays[column].size :=
    hb.array_size _ (List.getElem_mem hcolumn) ▸ hphysical
  simp only [physicalRow, List.getElem_map, List.getElem_zipWith, Array.getElem?_push_lt hsize,
    Array.getElem?_eq_getElem hsize]

theorem WellFormed.physicalRow_writeRow_self (hb : b.WellFormed)
    (h : b.writeRow row = (after, none)) : after.physicalRow b.physicalRows = row := by
  obtain ⟨hlength, rfl⟩ := writeRow_eq_ok_iff.1 h
  have harrays : b.arrays.length = row.length := hb.arrays_length.trans hlength.symm
  rw [pushEach_eq_zipWith harrays]
  refine List.ext_getElem (by simp [physicalRow, harrays]) fun column _ hcolumn => ?_
  have hpushed : (b.arrays[column].push row[column])[b.physicalRows]? = some row[column] := by
    rw [← hb.array_size b.arrays[column] (List.getElem_mem _), Array.getElem?_push_size]
  simp only [physicalRow, List.getElem_map, List.getElem_zipWith, hpushed, Option.getD_some]

theorem WellFormed.rows_writeRow (hb : b.WellFormed) (h : b.writeRow row = (after, none)) :
    after.rows = b.rows ++ [row] := by
  have hold : b.sequence.toList.map after.physicalRow = b.rows :=
    List.map_congr_left fun physical hphysical =>
      hb.physicalRow_writeRow h (hb.sequence_lt physical (Array.mem_toList_iff.1 hphysical))
  have hsequence : after.sequence.toList = b.sequence.toList ++ [b.physicalRows] := by
    rw [(writeRow_eq_ok_iff.1 h).2, Array.toList_push]
  unfold rows
  rw [hsequence, List.map_append, hold, List.map_singleton, hb.physicalRow_writeRow_self h]
  rfl

theorem WellFormed.exists_writeRows (hb : b.WellFormed) {rows : List (List Value)}
    (hrows : ∀ row ∈ rows, row.length = b.numColumns) :
    ∃ after, b.writeRows rows = .ok after ∧ after.columns = b.columns ∧
      after.rows = b.rows ++ rows := by
  induction rows generalizing b with
  | nil => exact ⟨b, rfl, rfl, (List.append_nil _).symm⟩
  | cons row rest ih =>
    obtain ⟨hrow, hrest⟩ := List.forall_mem_cons.1 hrows
    have hnext := writeRow_eq_ok_iff.2 ⟨hrow, rfl⟩
    obtain ⟨after, hafter, hcolumns, hall⟩ := ih (hb.writeRow hnext) hrest
    refine ⟨after, ?_, hcolumns, ?_⟩
    · rw [writeRows_cons, hnext]
      exact hafter
    · rw [hall, hb.rows_writeRow hnext, List.append_assoc]
      rfl

/-- Every list of rows that fit the columns is that of a batch. -/
theorem exists_ofRows {columns : List Column} {rows : List (List Value)}
    (hrows : ∀ row ∈ rows, row.length = columns.length) :
    ∃ b, ofRows columns rows = .ok b ∧ b.columns = columns ∧ b.rows = rows :=
  (new_wellFormed columns).exists_writeRows hrows

end Batch

end Columnar
