import Columnar.RecordBatch
import Columnar.Proofs.Outcomes

/-!
# The cells of one column

Each type has cells of its own, which hold contents instead of values. What the types have in common
is collected first: a content stands for one value, every value of the type has a content, and cells
are read as the values of their contents. From then on no proof looks at a type. A column can be
written if it admits its values, the cells are read as these values, and otherwise the first value
that is not admitted is reported.
-/

namespace Columnar

/-- A column holds nulls and values of its own type. -/
def Column.Admits (column : Column) (v : Value) : Prop :=
  v = .null ∨ v.dataType = column.dataType

instance (column : Column) (v : Value) : Decidable (column.Admits v) :=
  inferInstanceAs (Decidable (_ ∨ _))

theorem Column.admits_iff_of_null {column : Column} {v : Value} (h : column.dataType = .null) :
    column.Admits v ↔ v = .null := by
  unfold Admits
  rw [h, Value.dataType_eq_null_iff, or_self]

/-! ### One type -/

/-- How the values of one type are held by cells. -/
structure Coding where
  Content : Type
  content : Content → Value
  content? : Value → Option Content
  cells : List (Option Content) → Cells

/-- Of a null nothing is held but that it is there. -/
def DataType.coding : DataType → Coding
  | int64 => ⟨Int64, .int64, fun | .int64 n => some n | _ => none, .int64⟩
  | float32 => ⟨Single, .float32, fun | .float32 x => some x | _ => none, .float32⟩
  | float64 => ⟨Double, .float64, fun | .float64 x => some x | _ => none, .float64⟩
  | bool => ⟨Bool, .bool, fun | .bool b => some b | _ => none, .boolean⟩
  | string => ⟨String, .string, fun | .string s => some s | _ => none, .utf8⟩
  | date => ⟨Int32, .date, fun | .date days => some days | _ => none, .date32⟩
  | timestamp =>
    ⟨Int64, .timestamp, fun | .timestamp micros => some micros | _ => none, .timestampMicros⟩
  | null => ⟨Unit, fun _ => .null, fun _ => none, fun cells => .null cells.length⟩

namespace DataType

theorem content_of_content? {t : DataType} {v : Value} {x : t.coding.Content}
    (h : t.coding.content? v = some x) : t.coding.content x = v := by
  cases t <;> cases v <;> cases h <;> rfl

theorem exists_content?_iff {t : DataType} {v : Value} (hv : v ≠ .null) :
    (∃ x, t.coding.content? v = some x) ↔ v.dataType = t := by
  cases v with
  | null => exact absurd rfl hv
  | _ => cases t <;> simp [coding, Value.dataType]

theorem values_cells {t : DataType} (l : List (Option t.coding.Content)) :
    (t.coding.cells l).values = Cells.toValues t.coding.content l := by
  cases t with
  | null =>
    change List.replicate l.length Value.null = l.map _
    refine (List.eq_replicate_iff.2 ⟨List.length_map _, ?_⟩).symm
    intro v hv
    obtain ⟨cell, -, rfl⟩ := List.mem_map.1 hv
    cases cell <;> rfl
  | _ => rfl

theorem elementType_cells {t : DataType} (l : List (Option t.coding.Content)) :
    (t.coding.cells l).elementType = t.elementType := by
  cases t <;> rfl

end DataType

/-! ### One column -/

namespace Cells

variable {column : Column}

theorem ofValues_eq (column : Column) (values : List Value) :
    ofValues column values = column.dataType.coding.cells <$>
      values.mapM (cell column column.dataType.coding.content?) := by
  obtain ⟨name, t⟩ := column
  cases t with
  | null =>
    change (values.mapM (cell ⟨name, .null⟩ fun _ => none) >>= fun cells : List (Option Unit) =>
      pure (null cells.length)) = _
    exact (map_eq_pure_bind _ _).symm
  | _ => rfl

theorem cell_eq_error_iff {v : Value} {e : ReduceError} :
    cell column column.dataType.coding.content? v = .error e ↔
      ¬ column.Admits v ∧
        e = .ofDefect (.mistypedValue column.name column.dataType v.dataType) := by
  unfold cell Column.Admits
  by_cases hnull : v = .null
  · simp [hnull, Value.isNull]
  · rw [if_neg (mt Value.isNull_iff.1 hnull), ← DataType.exists_content?_iff hnull]
    cases hcontent : column.dataType.coding.content? v with
    | some x => simp [hnull]
    | none => simp [hnull, eq_comm]

theorem value_of_cell {v : Value} {x : Option column.dataType.coding.Content}
    (h : cell column column.dataType.coding.content? v = .ok x) :
    (x.map column.dataType.coding.content).getD .null = v := by
  unfold cell at h
  split at h
  · next hnull =>
    cases h
    exact (Value.isNull_iff.1 hnull).symm
  · split at h
    · next hcontent =>
      cases h
      exact DataType.content_of_content? hcontent
    · cases h

/-- What is written is read again. -/
theorem values_ofValues {values : List Value} {cells : Cells}
    (h : ofValues column values = .ok cells) :
    cells.values = values ∧ cells.elementType = column.dataType.elementType := by
  rw [ofValues_eq, map_eq_pure_bind] at h
  obtain ⟨l, hl, h⟩ := bind_eq_ok_iff.1 h
  cases h
  refine ⟨?_, DataType.elementType_cells l⟩
  rw [DataType.values_cells]
  refine (map_eq_map_of_mapM_eq_ok hl fun v _ x hx => ?_).trans (List.map_id values)
  exact value_of_cell hx

theorem length_values (cells : Cells) : cells.values.length = cells.length := by
  cases cells <;> simp [values, toValues, length]

theorem length_ofValues {values : List Value} {cells : Cells}
    (h : ofValues column values = .ok cells) : cells.length = values.length := by
  rw [← length_values, (values_ofValues h).1]

/-- Only a value that is not admitted stops a column, and the first one does. -/
theorem ofValues_eq_error_iff {values : List Value} {e : ReduceError} :
    ofValues column values = .error e ↔ ∃ v, First (¬ column.Admits ·) values v ∧
      e = .ofDefect (.mistypedValue column.name column.dataType v.dataType) := by
  have hwrite : ofValues column values = .error e ↔
      values.mapM (cell column column.dataType.coding.content?) = .error e := by
    rw [ofValues_eq, map_eq_pure_bind, bind_eq_error_iff]
    exact or_iff_left fun ⟨_, _, h⟩ => by cases h
  rw [hwrite, mapM_eq_error_iff]
  simp only [cell_eq_error_iff, exists_and_left, exists_eq, and_true]
  exact exists_congr fun v => and_congr_right fun hfirst => and_iff_right hfirst.holds

end Cells

end Columnar
