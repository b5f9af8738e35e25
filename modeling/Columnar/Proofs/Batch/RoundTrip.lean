import Columnar.Proofs.Batch.Representation
import Mathlib.Data.Nat.Find
import Mathlib.Data.Option.Basic

/-!
# Writing a batch and reading it back

A batch can be written if every value that is read in it fits its column. The record that comes out
has the values of each column in logical order, so reading it gives the rows again, now stored in
that order. A value that does not fit stops the writing: columns are written one after another and
each from its first row to its last, so what is reported is the first such value of the first column
that has one. Values to which the sequence does not point take no part in any of this.
-/

namespace Columnar

namespace Batch

variable {b : Batch}

/-! ### Columns in logical order -/

theorem WellFormed.getElem?_columnValues (hb : b.WellFormed) {column : Nat}
    (h : column < b.numColumns) (row : Nat) :
    (b.columnValues column)[row]? = b.value? row column := by
  rw [hb.columnValues_eq_map h, List.getElem?_map, Array.getElem?_toList]
  unfold value?
  cases hphysical : b.sequence[row]? with
  | none => rfl
  | some physical => exact hb.some_getD_physicalValue? h (Array.mem_of_getElem? hphysical)

theorem WellFormed.value?_eq_none (hb : b.WellFormed) {column : Nat} (h : b.numColumns ≤ column)
    (row : Nat) : b.value? row column = none := by
  refine Option.not_isSome_iff_eq_none.1 fun hsome => ?_
  exact absurd (hb.isSome_value?_iff.1 hsome).2 (Nat.not_lt.2 h)

theorem WellFormed.rows_eq_of_value? {other : Batch} (hb : b.WellFormed) (hother : other.WellFormed)
    (hrows : other.numRows = b.numRows) (hcolumns : other.numColumns = b.numColumns)
    (hvalue : ∀ row column, other.value? row column = b.value? row column) :
    other.rows = b.rows := by
  have hsome : (other.rows.map fun row => row.map some) = b.rows.map fun row => row.map some := by
    rw [hother.map_some_rows, hb.map_some_rows, hrows, hcolumns]
    simp only [funext (hvalue _)]
  exact List.map_injective_iff.2 (List.map_injective_iff.2 (Option.some_injective Value)) hsome

theorem WellFormed.toRecordBatch_congr {other : Batch} (hb : b.WellFormed)
    (hother : other.WellFormed) (hcolumns : other.columns = b.columns)
    (hrows : other.rows = b.rows) : other.toRecordBatch = b.toRecordBatch := by
  unfold toRecordBatch
  simp only [hcolumns, hother.columnValues_eq, hb.columnValues_eq, hrows]

/-! ### Writing -/

/-- There is a value at a logical row that its column does not admit. -/
def Mistyped (b : Batch) (column row : Nat) : Prop :=
  ∃ c v, b.columns[column]? = some c ∧ b.value? row column = some v ∧ ¬ c.Admits v

/-- A value that its column does not admit, with no other in the columns before and none above it in
its own. -/
structure FirstMistyped (b : Batch) (column row : Nat) (c : Column) (v : Value) : Prop where
  column_eq : b.columns[column]? = some c
  value_eq : b.value? row column = some v
  not_admits : ¬ c.Admits v
  before : ∀ earlier < column, ∀ row, ¬ b.Mistyped earlier row
  above : ∀ earlier < row, ¬ b.Mistyped column earlier

theorem exists_firstMistyped (h : ∃ column row, b.Mistyped column row) :
    ∃ column row c v, b.FirstMistyped column row c v := by
  classical
  obtain ⟨c, v, hc, hv, hnot⟩ := Nat.find_spec (Nat.find_spec h)
  refine ⟨Nat.find h, Nat.find (Nat.find_spec h), c, v, hc, hv, hnot, ?_, ?_⟩
  · exact fun earlier hlt row hmistyped => Nat.find_min h hlt ⟨row, hmistyped⟩
  · exact fun earlier hlt => Nat.find_min (Nat.find_spec h) hlt

/-- A column is stopped at its first mistyped value. -/
theorem WellFormed.field_eq_error_iff_mistyped (hb : b.WellFormed) {i : Nat} {c : Column}
    (hc : b.columns[i]? = some c) {e : ReduceError} :
    b.field (c, i) = .error e ↔ ∃ row v, b.value? row i = some v ∧ ¬ c.Admits v ∧
      (∀ earlier < row, ¬ b.Mistyped i earlier) ∧
        e = .ofDefect (.mistypedValue c.name c.dataType v.dataType) := by
  have hi : i < b.numColumns := (List.getElem?_eq_some_iff.1 hc).1
  have habove : ∀ row, (∀ w, b.value? row i = some w → ¬ ¬ c.Admits w) ↔ ¬ b.Mistyped i row := by
    intro row
    unfold Mistyped
    rw [hc]
    simp
  simp only [field_eq_error_iff, first_iff_getElem?, hb.getElem?_columnValues hi, habove]
  constructor
  · intro hfirst
    obtain ⟨v, ⟨row, hv, hnot, hrows⟩, he⟩ := hfirst
    exact ⟨row, v, hv, hnot, hrows, he⟩
  · intro hfirst
    obtain ⟨row, v, hv, hnot, hrows, he⟩ := hfirst
    exact ⟨v, ⟨row, hv, hnot, hrows⟩, he⟩

theorem WellFormed.exists_field_eq_error_iff (hb : b.WellFormed) {i : Nat} {c : Column}
    (hc : b.columns[i]? = some c) :
    (∃ e, b.field (c, i) = .error e) ↔ ∃ row, b.Mistyped i row := by
  classical
  constructor
  · intro hfails
    obtain ⟨e, he⟩ := hfails
    obtain ⟨row, v, hv, hnot, -⟩ := (hb.field_eq_error_iff_mistyped hc).1 he
    exact ⟨row, c, v, hc, hv, hnot⟩
  · intro hmistyped
    obtain ⟨d, v, hd, hv, hnot⟩ := Nat.find_spec hmistyped
    cases hc.symm.trans hd
    exact ⟨_, (hb.field_eq_error_iff_mistyped hc).2
      ⟨_, v, hv, hnot, fun earlier hlt => Nat.find_min hmistyped hlt, rfl⟩⟩

/-- Of all columns, the first with a mistyped value is the one that stops the writing. -/
theorem WellFormed.mapM_field_eq_error_iff (hb : b.WellFormed) {e : ReduceError} :
    b.columns.zipIdx.mapM b.field = .error e ↔
      ∃ i row c v, b.FirstMistyped i row c v ∧
        e = .ofDefect (.mistypedValue c.name c.dataType v.dataType) := by
  have hcolumn : ∀ (c : Column) (i j : Nat), b.columns.zipIdx[j]? = some (c, i) ↔
      b.columns[j]? = some c ∧ i = j := by
    intro c i j
    rw [List.getElem?_zipIdx]
    cases b.columns[j]? <;> simp [eq_comm]
  rw [mapM_eq_error_iff]
  constructor
  · intro hfirst
    obtain ⟨⟨c, i⟩, hfirst, he⟩ := hfirst
    obtain ⟨j, hj, -, hbefore⟩ := first_iff_getElem?.1 hfirst
    obtain ⟨hc, rfl⟩ := (hcolumn c i j).1 hj
    obtain ⟨row, v, hv, hnot, habove, he⟩ := (hb.field_eq_error_iff_mistyped hc).1 he
    refine ⟨i, row, c, v, ⟨hc, hv, hnot, fun earlier hlt row hmistyped => ?_, habove⟩, he⟩
    obtain ⟨d, w, hd, hw, hdnot⟩ := hmistyped
    exact hbefore earlier hlt (d, earlier) ((hcolumn d earlier earlier).2 ⟨hd, rfl⟩)
      ((hb.exists_field_eq_error_iff hd).2 ⟨row, d, w, hd, hw, hdnot⟩)
  · intro hmistyped
    obtain ⟨i, row, c, v, hfirst, he⟩ := hmistyped
    have hfails := (hb.field_eq_error_iff_mistyped hfirst.column_eq).2
      ⟨row, v, hfirst.value_eq, hfirst.not_admits, hfirst.above, he⟩
    refine ⟨(c, i), first_iff_getElem?.2 ⟨i, (hcolumn c i i).2 ⟨hfirst.column_eq, rfl⟩,
      ⟨e, hfails⟩, fun earlier hlt d hd hdfails => ?_⟩, hfails⟩
    obtain ⟨d, j⟩ := d
    obtain ⟨hd, rfl⟩ := (hcolumn d j earlier).1 hd
    obtain ⟨row, hmistyped⟩ := (hb.exists_field_eq_error_iff hd).1 hdfails
    exact hfirst.before j hlt row hmistyped

theorem WellFormed.toRecordBatch_eq_error_iff (hb : b.WellFormed) {e : ReduceError} :
    b.toRecordBatch = .error e ↔
      (∃ i row c v, b.FirstMistyped i row c v ∧
        e = .ofDefect (.mistypedValue c.name c.dataType v.dataType)) ∨
      b.columns = [] ∧ e = .ofRecordDefect .noRowCount := by
  rw [hb.toRecordBatch_eq, bind_eq_error_iff, hb.mapM_field_eq_error_iff]
  refine or_congr_right ?_
  constructor
  · intro hempty
    obtain ⟨fields, hfields, h⟩ := hempty
    split at h
    · next hnil =>
      cases h
      have hzip := List.forall₂_nil_right_iff.1 (hnil ▸ mapM_eq_ok_iff.1 hfields)
      exact ⟨List.zipIdx_eq_nil_iff.1 hzip, rfl⟩
    · cases h
  · intro hempty
    obtain ⟨hnil, rfl⟩ := hempty
    exact ⟨[], by rw [hnil]; rfl, rfl⟩

/-- A batch can be written if it has a column and no value is mistyped. -/
theorem WellFormed.exists_toRecordBatch_iff (hb : b.WellFormed) :
    (∃ record, b.toRecordBatch = .ok record) ↔
      b.columns ≠ [] ∧ ∀ column row, ¬ b.Mistyped column row := by
  cases hwrite : b.toRecordBatch with
  | ok record =>
    refine iff_of_true ⟨record, rfl⟩ ⟨fun hnil => ?_, fun column row hmistyped => ?_⟩
    · by_cases hmistyped : ∃ column row, b.Mistyped column row
      · obtain ⟨column, row, c, v, hc, -⟩ := hmistyped
        rw [hnil] at hc
        cases hc
      · cases hwrite.symm.trans (hb.toRecordBatch_eq_error_iff.2 (.inr ⟨hnil, rfl⟩))
    · obtain ⟨i, row, c, v, hfirst⟩ := exists_firstMistyped ⟨column, row, hmistyped⟩
      cases hwrite.symm.trans
        (hb.toRecordBatch_eq_error_iff.2 (.inl ⟨i, row, c, v, hfirst, rfl⟩))
  | error e =>
    refine iff_of_false (by simp) fun hfits => ?_
    rcases hb.toRecordBatch_eq_error_iff.1 hwrite with ⟨i, row, c, v, hfirst, -⟩ | ⟨hnil, -⟩
    · exact hfits.2 i row ⟨c, v, hfirst.column_eq, hfirst.value_eq, hfirst.not_admits⟩
    · exact hfits.1 hnil

/-! ### Reading -/

theorem toColumn_of_field {column : Column × Nat} {field : Field}
    (h : b.field column = .ok field) :
    field.toColumn = .ok (column.1, (b.columnValues column.2).toArray) := by
  obtain ⟨cells, hcells, rfl⟩ := field_eq_ok_iff.1 h
  obtain ⟨hvalues, htype⟩ := Cells.values_ofValues hcells
  simp only [Field.toColumn, htype, DataType.dataType?_elementType, hvalues]

/-- Columns and arrays of one length make a batch that keeps the order of the arrays. -/
theorem ofColumns_eq_ok {columns : List Column} {arrays : List (Array Value)} {count : Nat}
    (hne : columns ≠ []) (hlength : columns.length = arrays.length)
    (hsize : ∀ a ∈ arrays, a.size = count) :
    ofColumns columns arrays = .ok ⟨columns, arrays, identitySequence count, count⟩ := by
  have hrows : (arrays.head?.map Array.size).getD 0 = count := by
    cases arrays with
    | nil => exact absurd (List.eq_nil_of_length_eq_zero hlength) hne
    | cons a rest => exact hsize a List.mem_cons_self
  unfold ofColumns
  rw [if_neg (not_not.2 hlength)]
  dsimp only
  rw [hrows]
  split
  · next c a hfind =>
    have hother := List.find?_some hfind
    have ha := (List.of_mem_zip (List.mem_of_find?_eq_some hfind)).2
    exact absurd (hsize a ha) (bne_iff_ne.1 hother)
  · rfl

theorem value?_identitySequence {columns : List Column} {arrays : List (Array Value)} {count : Nat}
    (hsize : ∀ a ∈ arrays, a.size = count) (row column : Nat) :
    (Batch.mk columns arrays (identitySequence count) count).value? row column =
      arrays[column]?.bind (·[row]?) := by
  unfold value? identitySequence
  by_cases hrow : row < count
  · rw [Array.getElem?_eq_getElem (by simpa using hrow), Array.getElem_range]
    rfl
  · rw [Array.getElem?_eq_none (by simpa using hrow)]
    refine (Option.bind_eq_none_iff.2 fun a ha => Array.getElem?_eq_none ?_).symm
    rw [hsize a (List.mem_of_getElem? ha)]
    exact Nat.le_of_not_lt hrow

def orderedArrays (b : Batch) : List (Array Value) :=
  b.columns.zipIdx.map fun column => (b.columnValues column.2).toArray

theorem WellFormed.size_of_mem_orderedArrays (hb : b.WellFormed) {a : Array Value}
    (ha : a ∈ b.orderedArrays) : a.size = b.numRows := by
  obtain ⟨⟨c, i⟩, hc, rfl⟩ := List.mem_map.1 ha
  obtain ⟨-, hlt, -⟩ := List.mem_zipIdx hc
  exact hb.length_columnValues (by simpa [numColumns] using hlt)

theorem WellFormed.getElem?_orderedArrays (hb : b.WellFormed) (row column : Nat) :
    (b.orderedArrays[column]?.bind fun a => a[row]?) = b.value? row column := by
  unfold orderedArrays
  rw [List.getElem?_map, List.getElem?_zipIdx]
  cases hc : b.columns[column]? with
  | none => exact (hb.value?_eq_none (List.getElem?_eq_none_iff.1 hc) row).symm
  | some c =>
    refine Eq.trans ?_ (hb.getElem?_columnValues (List.getElem?_eq_some_iff.1 hc).1 row)
    simp

theorem WellFormed.ofRecordBatch_of_toRecordBatch (hb : b.WellFormed) {record : RecordBatch}
    (h : b.toRecordBatch = .ok record) :
    ofRecordBatch record = ofColumns b.columns b.orderedArrays := by
  have hfields := (hb.toRecordBatch_eq_ok_iff.1 h).1
  have hcolumns : record.fields.mapM Field.toColumn =
      .ok (b.columns.zipIdx.map fun column => (column.1, (b.columnValues column.2).toArray)) := by
    refine mapM_eq_ok_iff.2 ?_
    rw [List.forall₂_map_right_iff]
    exact ((mapM_eq_ok_iff.1 hfields).imp fun column field hfield => toColumn_of_field hfield).flip
  unfold ofRecordBatch
  rw [hcolumns]
  change ofColumns _ _ = _
  rw [List.map_map, List.map_map]
  exact congrArg (ofColumns · b.orderedArrays) (List.zipIdx_map_fst 0 b.columns)

theorem WellFormed.exists_ofRecordBatch (hb : b.WellFormed) {record : RecordBatch}
    (h : b.toRecordBatch = .ok record) :
    ∃ back, ofRecordBatch record = .ok back ∧ back.columns = b.columns ∧ back.rows = b.rows ∧
      back.sequence = identitySequence b.numRows := by
  have hne : b.columns ≠ [] := (hb.exists_toRecordBatch_iff.1 ⟨record, h⟩).1
  have hsize : ∀ a ∈ b.orderedArrays, a.size = b.numRows := fun a => hb.size_of_mem_orderedArrays
  have hback := ofColumns_eq_ok hne (by simp [orderedArrays]) hsize
  refine ⟨_, (hb.ofRecordBatch_of_toRecordBatch h).trans hback, rfl, ?_, rfl⟩
  refine hb.rows_eq_of_value? (ofColumns_wellFormed hback) Array.size_range rfl
    fun row column => ?_
  exact (value?_identitySequence hsize row column).trans (hb.getElem?_orderedArrays row column)

/-! ### The round trip -/

/-- A record holds what the rows show. A batch can be written exactly if it has a column and every
value at a logical row is a null or of the type of its column; in a column of nulls that leaves the
nulls. What else the batch stores makes no difference. The record is read as a batch with the same
columns and rows, in the order of their positions. If a value does not fit its column, the first
such value, by columns and then by rows, is what is reported. -/
theorem toRecordBatch_roundTrip (hb : b.Reachable) :
    ((∃ record, b.toRecordBatch = .ok record) ↔ b.columns ≠ [] ∧
      ∀ column row c v, b.columns[column]? = some c → b.value? row column = some v →
        v = .null ∨ v.dataType = c.dataType) ∧
    (∀ record, b.toRecordBatch = .ok record →
      ∀ column row c v, b.columns[column]? = some c → c.dataType = .null →
        b.value? row column = some v → v = .null) ∧
    (∀ other : Batch, other.Reachable → other.columns = b.columns → other.rows = b.rows →
      other.toRecordBatch = b.toRecordBatch) ∧
    (∀ record, b.toRecordBatch = .ok record →
      ∃ back, ofRecordBatch record = .ok back ∧ back.columns = b.columns ∧ back.rows = b.rows ∧
        back.sequence = identitySequence b.numRows) ∧
    ((∃ column row, b.Mistyped column row) → ∃ column row c v, b.FirstMistyped column row c v ∧
      b.toRecordBatch = .error
        (.invalidBatch (BatchDefect.mistypedValue c.name c.dataType v.dataType).message)) := by
  have hwf : b.WellFormed := hb.wellFormed
  have hfits : (∀ column row, ¬ b.Mistyped column row) ↔
      ∀ column row c v, b.columns[column]? = some c → b.value? row column = some v →
        c.Admits v := by
    simp only [Mistyped, not_exists, not_and, not_not]
  refine ⟨hwf.exists_toRecordBatch_iff.trans (and_congr_right fun _ => hfits), ?_, ?_,
    fun record h => hwf.exists_ofRecordBatch h, ?_⟩
  · intro record h column row c v hc hnull hv
    have hadmits := hfits.1 (hwf.exists_toRecordBatch_iff.1 ⟨record, h⟩).2 column row c v hc hv
    exact (Column.admits_iff_of_null hnull).1 hadmits
  · exact fun other hother hcolumns hrows =>
      hwf.toRecordBatch_congr hother.wellFormed hcolumns hrows
  · intro hmistyped
    obtain ⟨column, row, c, v, hfirst⟩ := exists_firstMistyped hmistyped
    exact ⟨column, row, c, v, hfirst,
      hwf.toRecordBatch_eq_error_iff.2 (.inl ⟨column, row, c, v, hfirst, rfl⟩)⟩

/-- Two columns with a value at the last position that neither of them admits. -/
def strayArrays (sequence : Array Nat) : Batch :=
  ⟨[⟨"n", .int64⟩, ⟨"none", .null⟩],
    [#[.int64 10, .null, .int64 30, .string "x"], #[.null, .null, .null, .bool true]], sequence, 4⟩

theorem strayArrays_reachable {sequence : Array Nat}
    (h : (strayArrays #[0, 1, 2, 3]).withSequence sequence = .ok (strayArrays sequence)) :
    (strayArrays sequence).Reachable := by
  have hcolumns : ofColumns (strayArrays #[]).columns (strayArrays #[]).arrays =
      .ok (strayArrays #[0, 1, 2, 3]) := by rfl
  exact .withSequence (.ofColumns hcolumns) h

/-- Out of the way of the sequence the last position does no harm; at the second and the third row
it is reported for the first column, at the second row. -/
theorem toRecordBatch_roundTrip_strayArrays :
    (∃ record, (strayArrays #[2, 0, 0, 1]).toRecordBatch = .ok record ∧
      (Batch.mk [⟨"n", .int64⟩, ⟨"none", .null⟩] [#[.int64 30, .int64 10, .int64 10, .null],
        #[.null, .null, .null, .null]] #[0, 1, 2, 3] 4).toRecordBatch = .ok record ∧
      ∃ back, ofRecordBatch record = .ok back ∧
        back.rows = [[.int64 30, .null], [.int64 10, .null], [.int64 10, .null], [.null, .null]]) ∧
    ∃ column row c v, (strayArrays #[2, 3, 3]).FirstMistyped column row c v ∧
      (strayArrays #[2, 3, 3]).toRecordBatch = .error
        (.invalidBatch (BatchDefect.mistypedValue c.name c.dataType v.dataType).message) := by
  have hreordered : (strayArrays #[2, 0, 0, 1]).Reachable := strayArrays_reachable (by rfl)
  have hplain : ofColumns [⟨"n", .int64⟩, ⟨"none", .null⟩]
      [#[.int64 30, .int64 10, .int64 10, .null], #[.null, .null, .null, .null]] =
      .ok ⟨[⟨"n", .int64⟩, ⟨"none", .null⟩], [#[.int64 30, .int64 10, .int64 10, .null],
        #[.null, .null, .null, .null]], #[0, 1, 2, 3], 4⟩ := by rfl
  have hwritten : (strayArrays #[2, 0, 0, 1]).toRecordBatch = .ok
      ⟨[⟨"n", true, .int64 [some 30, some 10, some 10, none]⟩, ⟨"none", true, .null 4⟩]⟩ := by rfl
  have hstray : (strayArrays #[2, 3, 3]).Mistyped 1 2 :=
    ⟨⟨"none", .null⟩, .bool true, by rfl, by rfl, by decide⟩
  obtain ⟨-, -, hother, hback, -⟩ := toRecordBatch_roundTrip hreordered
  obtain ⟨back, hread, -, hrows, -⟩ := hback _ hwritten
  refine ⟨⟨_, hwritten, ?_, back, hread, hrows⟩, ?_⟩
  · exact (hother _ (.ofColumns hplain) rfl (by rfl)).trans hwritten
  · exact (toRecordBatch_roundTrip (strayArrays_reachable (by rfl))).2.2.2.2 ⟨1, 2, hstray⟩

end Batch

end Columnar
