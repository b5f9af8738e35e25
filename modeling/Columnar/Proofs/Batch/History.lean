import Columnar.Batch.Cursor
import Columnar.Proofs.Node.Columns

/-!
# The rows of a batch under their names

A logical row of a batch maps each column name to a value, and of columns with one name the first
counts (`Batch.history`). A cursor makes the rows of some columns only, but under a name it reads
there is the same value.
-/

namespace Columnar

namespace Row

theorem get?_ofPairs_map (f : String → Value) (names : List String) (name : String) :
    (ofPairs (names.map fun n => (n, f n))).get? name =
      if name ∈ names then some (f name) else none := by
  have hfold : ∀ row : Row,
      ((names.map fun n => (n, f n)).foldl (fun row pair => row.set pair.1 pair.2) row).get? name =
        if name ∈ names then some (f name) else row.get? name := by
    induction names with
    | nil => intro row; rfl
    | cons n rest ih =>
      intro row
      rw [List.map_cons, List.foldl_cons, ih, get?_set]
      by_cases hrest : name ∈ rest
      · rw [if_pos hrest, if_pos (List.mem_cons_of_mem n hrest)]
      · rw [if_neg hrest]
        by_cases hn : name = n
        · rw [if_pos hn, hn, if_pos List.mem_cons_self]
        · rw [if_neg hn, if_neg fun h => (List.mem_cons.1 h).elim hn hrest]
  exact hfold empty

end Row

namespace Batch

variable (b : Batch)

/-! ### Columns by name -/

/-- The batch has a column of each name. -/
def HasColumns (names : List String) : Prop := ∀ name ∈ names, ∃ c ∈ b.columns, c.name = name

instance (names : List String) : Decidable (b.HasColumns names) :=
  inferInstanceAs (Decidable (∀ name ∈ names, ∃ c ∈ b.columns, c.name = name))

theorem HasColumns.sortNames {b : Batch} {names : List String} (h : b.HasColumns names) :
    b.HasColumns (Text.sortNames names) := fun name hname => h name (Text.mem_sortNames.1 hname)

theorem position?_eq_none_iff {b : Batch} {name : String} :
    b.position? name = none ↔ ¬ ∃ c ∈ b.columns, c.name = name := by
  unfold position?
  rw [List.findIdx?_eq_none_iff]
  simp only [beq_eq_false_iff_ne, ne_eq, not_exists, not_and]

theorem exists_position? {b : Batch} {name : String} (h : ∃ c ∈ b.columns, c.name = name) :
    ∃ p, b.position? name = some p :=
  Option.ne_none_iff_exists'.1 fun hnone => position?_eq_none_iff.1 hnone h

theorem HasColumns.find?_eq_none {b : Batch} {names : List String} (h : b.HasColumns names) :
    (names.find? fun name => b.position? name = none) = none := by
  refine List.find?_eq_none.2 fun name hname hmissing => ?_
  exact position?_eq_none_iff.1 (of_decide_eq_true hmissing) (h name hname)

theorem lt_numColumns_of_position? {b : Batch} {name : String} {p : Nat}
    (h : b.position? name = some p) : p < b.numColumns := by
  obtain ⟨hlt, -, -⟩ := List.findIdx?_eq_some_iff_getElem.1 h
  exact hlt

theorem exists_first_unknown {b : Batch} {names : List String} (h : ¬ b.HasColumns names) :
    ∃ name, First (fun n => b.position? n = none) names name := by
  refine exists_first ?_
  by_contra hnone
  refine h fun name hname => ?_
  by_contra hcolumn
  exact hnone ⟨name, hname, position?_eq_none_iff.2 hcolumn⟩

theorem exists_column_of_position? {b : Batch} {name : String} {p : Nat}
    (h : b.position? name = some p) : ∃ c, b.columns[p]? = some c ∧ c.name = name := by
  obtain ⟨hp, hname, -⟩ := List.findIdx?_eq_some_iff_getElem.1 h
  exact ⟨b.columns[p], List.getElem?_eq_getElem hp, beq_iff_eq.1 hname⟩

theorem locate_of_position? {b : Batch} {name : String} {p : Nat} {c : Column}
    (hp : b.position? name = some p) (hc : b.columns[p]? = some c) :
    b.locate name = .ok (p, c) := by
  have hcolumn : b.column? name = some c := by
    unfold column?
    rw [List.find?_eq_bind_findIdx?_getElem?]
    exact (congrArg (Option.bind · (b.columns[·]?)) hp).trans hc
  simp only [locate, hp, hcolumn]

theorem position?_of_locate {b : Batch} {name : String} {q : Nat × Column}
    (h : b.locate name = .ok q) : b.position? name = some q.1 := by
  unfold locate at h
  split at h
  · next hposition _ =>
    cases h
    exact hposition
  · cases h

theorem locate_of_position?_eq_none {b : Batch} {name : String} (hp : b.position? name = none) :
    b.locate name = .error (.unknownColumn name) := by
  simp only [locate, hp]

/-! ### Rows by name -/

/-- The value of the first column of a name at a physical position. -/
def cell (physical : Nat) (name : String) : Value :=
  ((b.position? name).bind fun p => b.physicalValue? p physical).getD .null

/-- The values of a row under the names of all columns. -/
def named (values : List Value) : Row := ⟨(b.columns.map Column.name).zip values⟩

/-- The logical rows in order, under the names of the columns. -/
def history : List Row := b.rows.map b.named

/-- The row of some names at a physical position. -/
def projectedRow (names : List String) (physical : Nat) : Row :=
  .ofPairs (names.map fun name => (name, b.cell physical name))

theorem get?_projectedRow (names : List String) (physical : Nat) (name : String) :
    (b.projectedRow names physical).get? name =
      if name ∈ names then some (b.cell physical name) else none :=
  Row.get?_ofPairs_map _ _ _

theorem lookup_zip_names (name : String) (columns : List Column) (values : List Value) :
    ((columns.map Column.name).zip values).lookup name =
      (columns.findIdx? fun c => c.name == name).bind (values[·]?) := by
  induction columns generalizing values with
  | nil => rfl
  | cons c rest ih =>
    rw [List.findIdx?_cons]
    cases values with
    | nil => cases h : (if c.name == name then _ else _ : Option Nat) <;> rfl
    | cons v vs =>
      rw [List.map_cons, List.zip_cons_cons, Row.lookup_cons_eq_ite, ih]
      by_cases h : name = c.name
      · rw [if_pos h, if_pos (beq_iff_eq.2 h.symm)]
        rfl
      · rw [if_neg h, if_neg fun heq => h (beq_iff_eq.1 heq).symm]
        cases rest.findIdx? fun c => c.name == name <;> rfl

theorem get?_named_physicalRow {b : Batch} (hb : b.arrays.length = b.columns.length)
    (physical : Nat) (name : String) :
    (b.named (b.physicalRow physical)).get? name =
      (b.position? name).map fun _ => b.cell physical name := by
  change ((b.columns.map Column.name).zip (b.physicalRow physical)).lookup name = _
  rw [lookup_zip_names]
  change (b.position? name).bind _ = _
  unfold cell
  cases hp : b.position? name with
  | none => rfl
  | some p =>
    have harray : p < b.arrays.length := hb ▸ lt_numColumns_of_position? hp
    change (b.physicalRow physical)[p]? = some ((b.physicalValue? p physical).getD .null)
    unfold physicalRow physicalValue?
    rw [List.getElem?_map, List.getElem?_eq_getElem harray]
    rfl

/-! ### The rows of a cursor -/

theorem cursor_eq_ok_iff {b : Batch} {names : List String} {c : Cursor} :
    b.cursor names = .ok c ↔ ∃ projection, names.mapM b.locate = .ok projection ∧
      c = ⟨b, projection, 0⟩ := by
  unfold cursor
  rw [bind_eq_ok_iff]
  refine exists_congr fun projection => and_congr_right fun _ => ?_
  exact ⟨fun h => (Except.ok.inj h).symm, fun h => h ▸ rfl⟩

section

variable {b : Batch} {names : List String} {c : Cursor}

theorem names_of_cursor (hc : b.cursor names = .ok c) : c.columns.map Column.name = names := by
  obtain ⟨projection, hprojection, rfl⟩ := cursor_eq_ok_iff.1 hc
  unfold Cursor.columns
  rw [List.map_map]
  refine (map_eq_map_of_mapM_eq_ok (k := id) hprojection fun name _ q hq => ?_).trans
    (List.map_id names)
  obtain ⟨column, hcolumn, hname⟩ := exists_column_of_position? (position?_of_locate hq)
  have hfound := (locate_of_position? (position?_of_locate hq) hcolumn).symm.trans hq
  rw [← Except.ok.inj hfound]
  exact hname

theorem tuple_of_cursor (hc : b.cursor names = .ok c) (physical : Nat) :
    c.tuple physical = names.map (b.cell physical) := by
  obtain ⟨projection, hprojection, rfl⟩ := cursor_eq_ok_iff.1 hc
  refine map_eq_map_of_mapM_eq_ok hprojection fun name _ q hq => ?_
  unfold cell
  rw [position?_of_locate hq]
  rfl

/-- With the names of its columns, a tuple of a cursor is a row of the batch. -/
theorem row_tuple_of_cursor (hc : b.cursor names = .ok c) (physical : Nat) :
    c.row (c.tuple physical) = b.projectedRow names physical := by
  unfold Cursor.row projectedRow
  rw [names_of_cursor hc, tuple_of_cursor hc, ← List.map_prod_left_eq_zip]

theorem rest_of_cursor (hc : b.cursor names = .ok c) :
    c.rest = b.sequence.toList.map c.tuple := by
  obtain ⟨projection, -, rfl⟩ := cursor_eq_ok_iff.1 hc
  rfl

theorem exists_cursor_eq_ok (h : b.HasColumns names) : ∃ c, b.cursor names = .ok c := by
  have hlocate : ∀ name ∈ names, ∃ q, b.locate name = .ok q := by
    intro name hname
    obtain ⟨p, hp⟩ := exists_position? (h name hname)
    obtain ⟨column, hcolumn, -⟩ := exists_column_of_position? hp
    exact ⟨(p, column), locate_of_position? hp hcolumn⟩
  obtain ⟨projection, hprojection⟩ := exists_mapM_eq_ok hlocate
  exact ⟨_, cursor_eq_ok_iff.2 ⟨projection, hprojection, rfl⟩⟩

theorem exists_cursor (h : b.HasColumns names) :
    ∃ c, b.cursor names = .ok c ∧
      c.rest.map c.row = b.sequence.toList.map (b.projectedRow names) := by
  obtain ⟨c, hc⟩ := exists_cursor_eq_ok h
  refine ⟨c, hc, ?_⟩
  rw [rest_of_cursor hc, List.map_map]
  exact List.map_congr_left fun physical _ => row_tuple_of_cursor hc physical

end

/-- A cursor over names of which some are unknown reports the first unknown one. -/
theorem cursor_of_unknown {b : Batch} {names : List String} {name : String}
    (h : First (fun n => b.position? n = none) names name) :
    b.cursor names = .error (.unknownColumn name) := by
  have herror : names.mapM b.locate = .error (.unknownColumn name) := by
    refine mapM_eq_error_iff.2 ⟨name, ?_, locate_of_position?_eq_none h.holds⟩
    obtain ⟨before, after, hsplit, hname, hbefore⟩ := h
    refine ⟨before, after, hsplit, ⟨_, locate_of_position?_eq_none hname⟩, fun n hn => ?_⟩
    obtain ⟨p, hp⟩ := Option.ne_none_iff_exists'.1 (hbefore n hn)
    obtain ⟨c, hc, -⟩ := exists_column_of_position? hp
    intro hfails
    obtain ⟨e, he⟩ := hfails
    cases he.symm.trans (locate_of_position? hp hc)
  unfold cursor
  rw [herror]
  rfl

theorem agreeOn_projectedRow {b : Batch} (hb : b.arrays.length = b.columns.length)
    {names : List String} (h : b.HasColumns names) (physical : Nat) :
    (b.projectedRow names physical).AgreeOn names (b.named (b.physicalRow physical)) := by
  intro name hname
  obtain ⟨p, hp⟩ := exists_position? (h name hname)
  rw [get?_projectedRow, get?_named_physicalRow hb, if_pos hname, hp]
  rfl

/-- A projected row is the whole row cut down to its columns. -/
theorem get?_projectedRow_eq_only {b : Batch} (hb : b.arrays.length = b.columns.length)
    {names : List String} (h : b.HasColumns names) (physical : Nat) (name : String) :
    (b.projectedRow names physical).get? name =
      ((b.named (b.physicalRow physical)).only names).get? name := by
  rw [Row.get?_only]
  by_cases hname : name ∈ names
  · rw [if_pos hname]
    exact agreeOn_projectedRow hb h physical name hname
  · rw [if_neg hname, get?_projectedRow, if_neg hname]

end Batch

end Columnar
