import Columnar.Proofs.Batch.Cells
import Columnar.Proofs.Batch.Rows

/-!
# Schemas and arrays that go together

A schema and arrays make a record batch exactly if there is an array for each field, and at least
one, all of them as long as the first, each of the declared type and without empty cells where none
are allowed. The arrays that a well-formed batch writes are of this kind, so writing a batch comes
down to writing its columns one by one, and nothing but the lack of a column makes it fail after
that.
-/

namespace Columnar

namespace RecordBatch

variable {schema : List FieldSchema} {arrays : List Cells}

theorem defect?_eq_none_iff :
    defect? schema arrays = none ↔ arrays.length = schema.length ∧ arrays ≠ [] ∧
      (∀ p ∈ schema.zip arrays, p.1.nullable = false → p.2.markedEmpty = 0) ∧
      (∀ cells ∈ arrays, cells.length = rowCount arrays) ∧
      ∀ p ∈ schema.zip arrays, p.2.elementType = p.1.elementType := by
  unfold defect?
  simp only [Option.orElse_eq_orElse, Option.orElse_eq_or, Option.or_eq_none_iff]
  refine and_congr (by simp) (and_congr (by simp) (and_congr (by simp) (and_congr (by simp) ?_)))
  -- The test of the types goes along with the positions, which it reports.
  have hpositions := List.zipIdx_map_fst 0 (schema.zip arrays)
  rw [List.findSome?_eq_none_iff]
  constructor
  · intro hnone p hp
    rw [← hpositions] at hp
    obtain ⟨indexed, hindexed, rfl⟩ := List.mem_map.1 hp
    simpa using hnone indexed hindexed
  · intro htypes indexed hindexed
    have htype := htypes indexed.1 (hpositions ▸ List.mem_map_of_mem hindexed)
    simp [htype]

/-- Arrays of one length and of the declared types make a record batch of fields that may have empty
cells. -/
theorem tryNew_eq_ok {count : Nat} (hne : schema ≠ [])
    (hnullable : ∀ field ∈ schema, field.nullable = true)
    (hlength : ∀ cells ∈ arrays, cells.length = count)
    (htypes : List.Forall₂ (fun field cells => cells.elementType = field.elementType)
      schema arrays) :
    tryNew schema arrays =
      .ok ⟨(schema.zip arrays).map fun p => ⟨p.1.name, p.1.nullable, p.2⟩⟩ := by
  have hrows : ∀ cells ∈ arrays, cells.length = rowCount arrays := by
    intro cells hcells
    cases arrays with
    | nil => cases hcells
    | cons first rest =>
      exact (hlength cells hcells).trans (hlength first List.mem_cons_self).symm
  have hfits : defect? schema arrays = none := by
    refine defect?_eq_none_iff.2 ⟨htypes.length_eq.symm, ?_, fun p hp hfull => ?_, hrows,
      fun p hp => (List.forall₂_iff_zip.1 htypes).2 hp⟩
    · rintro rfl
      exact hne (List.forall₂_nil_right_iff.1 htypes)
    · cases hfull.symm.trans (hnullable p.1 (List.of_mem_zip hp).1)
  unfold tryNew
  rw [hfits]

end RecordBatch

namespace Batch

variable {b : Batch}

/-! ### The arrays of a batch -/

/-- The cells that a column is written to. -/
def columnCells (b : Batch) (column : Column × Nat) : Except ReduceError Cells :=
  Cells.ofValues column.1 (b.columnValues column.2)

def field (b : Batch) (column : Column × Nat) : Except ReduceError Field :=
  (b.columnCells column).map (Field.mk column.1.name true)

theorem field_eq_ok_iff {column : Column × Nat} {field : Field} :
    b.field column = .ok field ↔ ∃ cells,
      Cells.ofValues column.1 (b.columnValues column.2) = .ok cells ∧
        ⟨column.1.name, true, cells⟩ = field :=
  map_eq_ok_iff

theorem field_eq_error_iff {column : Column × Nat} {e : ReduceError} :
    b.field column = .error e ↔ ∃ v, First (¬ column.1.Admits ·) (b.columnValues column.2) v ∧
      e = .ofDefect (.mistypedValue column.1.name column.1.dataType v.dataType) :=
  map_eq_error_iff.trans Cells.ofValues_eq_error_iff

theorem WellFormed.length_columnCells (hb : b.WellFormed) {column : Column × Nat}
    (hcolumn : column ∈ b.columns.zipIdx) {cells : Cells} (h : b.columnCells column = .ok cells) :
    cells.length = b.numRows := by
  obtain ⟨-, hlt, -⟩ := List.mem_zipIdx hcolumn
  exact (Cells.length_ofValues h).trans
    (hb.length_columnValues (by simpa [numColumns] using hlt))

theorem map_ofColumn_zipIdx (columns : List Column) :
    (columns.zipIdx.map fun column => FieldSchema.ofColumn column.1) =
      columns.map .ofColumn := by
  have hcolumns := congrArg (List.map FieldSchema.ofColumn) (List.zipIdx_map_fst 0 columns)
  rwa [List.map_map] at hcolumns

/-- What the columns of a well-formed batch are written to goes together with their declarations. -/
theorem WellFormed.tryNew_columnCells (hb : b.WellFormed) (hne : b.columns ≠ [])
    {arrays : List Cells} (hcells : b.columns.zipIdx.mapM b.columnCells = .ok arrays) :
    RecordBatch.tryNew (b.columns.map .ofColumn) arrays =
      .ok ⟨(b.columns.zipIdx.zip arrays).map fun p => ⟨p.1.1.name, true, p.2⟩⟩ := by
  have hlength : ∀ cells ∈ arrays, cells.length = b.numRows :=
    forall_of_mapM_eq_ok hcells fun column hcolumn cells h => hb.length_columnCells hcolumn h
  have htypes : List.Forall₂ (fun (field : FieldSchema) (cells : Cells) =>
      cells.elementType = field.elementType)
      (b.columns.zipIdx.map fun column => FieldSchema.ofColumn column.1) arrays :=
    List.forall₂_map_left_iff.2
      ((mapM_eq_ok_iff.1 hcells).imp fun column cells h => (Cells.values_ofValues h).2)
  have hnullable : ∀ field ∈ b.columns.zipIdx.map fun column => FieldSchema.ofColumn column.1,
      field.nullable = true := List.forall_mem_map.2 fun _ _ => rfl
  rw [← map_ofColumn_zipIdx,
    RecordBatch.tryNew_eq_ok (by simpa using hne) hnullable hlength htypes, List.zip_map_left,
    List.map_map]
  rfl

/-- A well-formed batch is written field by field, and lacks nothing then but perhaps a column. -/
theorem WellFormed.toRecordBatch_eq (hb : b.WellFormed) :
    b.toRecordBatch = b.columns.zipIdx.mapM b.field >>= fun fields =>
      if fields = [] then .error (.ofRecordDefect .noRowCount) else .ok ⟨fields⟩ := by
  have hfields : b.columns.zipIdx.mapM b.field =
      (b.columns.zipIdx.mapM b.columnCells).map fun arrays =>
        (b.columns.zipIdx.zip arrays).map fun p => ⟨p.1.1.name, true, p.2⟩ := mapM_map_zip _
  change (b.columns.zipIdx.mapM b.columnCells >>=
    fun arrays => RecordBatch.tryNew (b.columns.map .ofColumn) arrays) = _
  rw [hfields]
  cases hcells : b.columns.zipIdx.mapM b.columnCells with
  | error e => rfl
  | ok arrays =>
    have hall := mapM_eq_ok_iff.1 hcells
    change RecordBatch.tryNew (b.columns.map .ofColumn) arrays =
      if (b.columns.zipIdx.zip arrays).map (fun p => Field.mk p.1.1.name true p.2) = [] then _
      else _
    by_cases hcolumns : b.columns = []
    · rw [hcolumns] at hall ⊢
      cases hall
      rfl
    · have harrays : arrays ≠ [] := by
        rintro rfl
        exact hcolumns (List.zipIdx_eq_nil_iff.1 (List.forall₂_nil_right_iff.1 hall))
      rw [hb.tryNew_columnCells hcolumns hcells,
        if_neg (by simp [List.zip_eq_nil_iff, hcolumns, harrays])]

theorem WellFormed.toRecordBatch_eq_ok_iff (hb : b.WellFormed) {record : RecordBatch} :
    b.toRecordBatch = .ok record ↔
      b.columns.zipIdx.mapM b.field = .ok record.fields ∧ record.fields ≠ [] := by
  rw [hb.toRecordBatch_eq, bind_eq_ok_iff]
  constructor
  · intro hwritten
    obtain ⟨fields, hfields, h⟩ := hwritten
    split at h
    · cases h
    · next hne =>
      cases h
      exact ⟨hfields, hne⟩
  · intro hwritten
    exact ⟨record.fields, hwritten.1, if_neg hwritten.2⟩

theorem WellFormed.length_fields (hb : b.WellFormed) {record : RecordBatch}
    (h : b.toRecordBatch = .ok record) :
    record.fields.length = b.numColumns ∧ record.numRows = b.numRows ∧
      ∀ field ∈ record.fields, field.cells.length = b.numRows := by
  obtain ⟨hfields, hne⟩ := hb.toRecordBatch_eq_ok_iff.1 h
  have hcells : ∀ field ∈ record.fields, field.cells.length = b.numRows := by
    refine forall_of_mapM_eq_ok hfields fun column hcolumn field hfield => ?_
    obtain ⟨cells, hcells, rfl⟩ := field_eq_ok_iff.1 hfield
    exact hb.length_columnCells hcolumn hcells
  refine ⟨?_, ?_, hcells⟩
  · rw [← (mapM_eq_ok_iff.1 hfields).length_eq, List.length_zipIdx]
    rfl
  · unfold RecordBatch.numRows
    cases hrecord : record.fields with
    | nil => exact absurd hrecord hne
    | cons field rest => exact hcells field (hrecord ▸ List.mem_cons_self)

/-- The fields of a record batch that is written pass the tests again, on their own. -/
theorem WellFormed.ofFields_of_toRecordBatch (hb : b.WellFormed) {record : RecordBatch}
    (h : b.toRecordBatch = .ok record) : RecordBatch.ofFields record.fields = .ok record := by
  obtain ⟨hfields, hne⟩ := hb.toRecordBatch_eq_ok_iff.1 h
  have hnullable : ∀ field ∈ record.fields, field.nullable = true := by
    refine forall_of_mapM_eq_ok hfields fun column _ field hfield => ?_
    obtain ⟨cells, -, rfl⟩ := field_eq_ok_iff.1 hfield
    rfl
  have htypes : List.Forall₂ (fun (field : FieldSchema) (cells : Cells) =>
      cells.elementType = field.elementType)
      (record.fields.map fun field => ⟨field.name, field.cells.elementType, field.nullable⟩)
      (record.fields.map Field.cells) :=
    List.forall₂_map_left_iff.2 (List.forall₂_map_right_iff.2
      (List.forall₂_same.2 fun _ _ => rfl))
  have hlength : ∀ cells ∈ record.fields.map Field.cells, cells.length = b.numRows :=
    List.forall_mem_map.2 (hb.length_fields h).2.2
  unfold RecordBatch.ofFields
  rw [RecordBatch.tryNew_eq_ok (by simpa using hne) (List.forall_mem_map.2 hnullable) hlength
    htypes, List.zip_map', List.map_map]
  exact congrArg (fun fields => Except.ok (RecordBatch.mk fields)) (List.map_id record.fields)

end Batch

end Columnar
