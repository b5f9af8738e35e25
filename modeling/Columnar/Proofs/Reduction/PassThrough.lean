import Columnar.Proofs.Batch.Cursor
import Columnar.Proofs.Reduction.Columns
import Columnar.Proofs.Reduction.View

/-!
# Passing a column through

A column under any aliases has two ways to its value. Passed through, the value is read at the last
logical row. Computed, the node is fed every logical row of the columns a cursor was opened over and
then asked for its result. Both find one value, as a column keeps the value of the last row it was
fed, and a row of a cursor has, under each name, the value of the first column of that name.

A task makes one row and overwrites it from tuple to tuple (`feedKept`). That comes to the same as
a new row for every tuple, since the tuples of a cursor all bear the same names.
-/

namespace Columnar

/-! ### One row for all tuples -/

namespace Row

/-- The row with a tuple of values written over it. -/
def overwrite (row : Row) (names : List String) (values : List Value) : Row :=
  (names.zip values).foldl (fun row pair => row.set pair.1 pair.2) row

theorem get?_foldl_set_of_notMem {pairs : List (String × Value)} {name : String}
    (h : name ∉ pairs.map Prod.fst) (row : Row) :
    (pairs.foldl (fun row pair => row.set pair.1 pair.2) row).get? name = row.get? name := by
  induction pairs generalizing row with
  | nil => rfl
  | cons pair rest ih =>
    obtain ⟨hpair, hrest⟩ := not_or.1 (mt List.mem_cons.2 h)
    rw [List.foldl_cons, ih hrest, get?_set, if_neg hpair]

theorem get?_foldl_set_of_mem {pairs : List (String × Value)} {name : String}
    (h : name ∈ pairs.map Prod.fst) (row other : Row) :
    (pairs.foldl (fun row pair => row.set pair.1 pair.2) row).get? name =
      (pairs.foldl (fun row pair => row.set pair.1 pair.2) other).get? name := by
  induction pairs generalizing row other with
  | nil => exact absurd h List.not_mem_nil
  | cons pair rest ih =>
    by_cases hrest : name ∈ rest.map Prod.fst
    · exact ih hrest _ _
    · have hpair : name = pair.1 := (List.mem_cons.1 h).resolve_right hrest
      rw [List.foldl_cons, List.foldl_cons, get?_foldl_set_of_notMem hrest,
        get?_foldl_set_of_notMem hrest, get?_set, get?_set, if_pos hpair, if_pos hpair]

def Within (row : Row) (names : List String) : Prop := ∀ name ∉ names, row.get? name = none

variable {row : Row} {names : List String} {values : List Value}

theorem within_empty (names : List String) : empty.Within names := fun _ _ => rfl

theorem Within.overwrite (h : row.Within names) (hlength : values.length = names.length) :
    (row.overwrite names values).Within names ∧
      ∀ name, (row.overwrite names values).get? name = (ofPairs (names.zip values)).get? name := by
  have hfst : (names.zip values).map Prod.fst = names :=
    List.map_fst_zip (Nat.le_of_eq hlength.symm)
  have hother : ∀ name ∉ names, ∀ row : Row, (row.overwrite names values).get? name =
      row.get? name := fun name hname row => get?_foldl_set_of_notMem (by rwa [hfst]) row
  refine ⟨fun name hname => (hother name hname row).trans (h name hname), fun name => ?_⟩
  by_cases hname : name ∈ names
  · exact get?_foldl_set_of_mem (by rwa [hfst]) row empty
  · rw [hother name hname row, h name hname]
    exact (hother name hname empty).symm

end Row

namespace Node

/-- Feeds tuples of values, up to the first that fails, by writing each over the row of the one
before. -/
def feedKept (names : List String) : Row → List (List Value) → Node → Node × Option Fault
  | _, [], n => (n, none)
  | row, tuple :: rest, n =>
    match n.update (row.overwrite names tuple) with
    | (n, some e) => (n, some e)
    | (n, none) => feedKept names (row.overwrite names tuple) rest n

/-- A row that is kept is as good as a new one for every tuple. -/
theorem feedKept_eq_feed {names : List String} {tuples : List (List Value)}
    (hlength : ∀ tuple ∈ tuples, tuple.length = names.length) {row : Row} (hrow : row.Within names)
    (n : Node) :
    feedKept names row tuples n = feed (tuples.map fun tuple => .ofPairs (names.zip tuple)) n := by
  induction tuples generalizing row n with
  | nil => rfl
  | cons tuple rest ih =>
    obtain ⟨htuple, hrest⟩ := List.forall_mem_cons.1 hlength
    obtain ⟨hwithin, hsame⟩ := hrow.overwrite htuple
    rw [feedKept, List.map_cons, feed, update_congr (s := .ofPairs (names.zip tuple))
      fun name _ => hsame name]
    rcases n.update (.ofPairs (names.zip tuple)) with ⟨after, _ | e⟩
    · exact ih hrest hwithin after
    · rfl

/-- So a task can keep one row for all that its cursor yields. -/
theorem feedKept_of_yields {b : Batch} {fields : List String} {c : Cursor}
    (hc : b.cursor fields = .ok c) {tuples : List (List Value)} (htuples : c.Yields tuples)
    (n : Node) :
    feedKept (c.columns.map Column.name) .empty tuples n =
      feed (b.sequence.toList.map (b.projectedRow fields)) n := by
  have hrest : tuples = b.sequence.toList.map c.tuple :=
    (Cursor.yields_iff.1 htuples).trans (Batch.rest_of_cursor hc)
  have hlength : ∀ tuple ∈ tuples, tuple.length = (c.columns.map Column.name).length := by
    intro tuple htuple
    rw [hrest] at htuple
    obtain ⟨physical, -, rfl⟩ := List.mem_map.1 htuple
    rw [Batch.tuple_of_cursor hc, Batch.names_of_cursor hc, List.length_map]
  rw [feedKept_eq_feed hlength (Row.within_empty _), hrest, List.map_map]
  exact congrArg (feed · n) (List.map_congr_left fun physical _ =>
    Batch.row_tuple_of_cursor hc physical)

/-! ### A column under its aliases -/

variable {n : Node} {name : String} {current : Value}

theorem update_of_column (hn : n.withoutAliases = .column name current) {row : Row} {v : Value}
    (hv : row.get? name = some v) :
    (n.update row).2 = none ∧ (n.update row).1.withoutAliases = .column name v := by
  have hstep := update_withoutAliases row n
  rw [hn, update, hv] at hstep
  obtain ⟨hafter, hnone⟩ := Prod.mk.inj hstep
  exact ⟨hnone.symm, hafter.symm⟩

theorem feed_of_column {α : Type} {l : List α} {toRow : α → Row} {value : α → Value}
    (hvalue : ∀ a ∈ l, (toRow a).get? name = some (value a))
    (hn : n.withoutAliases = .column name current) :
    (feed (l.map toRow) n).2 = none ∧
      (feed (l.map toRow) n).1.withoutAliases =
        .column name ((l.map value).getLast?.getD current) := by
  induction l generalizing n current with
  | nil => exact ⟨rfl, hn⟩
  | cons a rest ih =>
    obtain ⟨ha, hrest⟩ := List.forall_mem_cons.1 hvalue
    obtain ⟨hnone, hafter⟩ := update_of_column hn ha
    rw [List.map_cons, List.map_cons, feed, List.getLast?_cons, Option.getD_some]
    rcases hstep : n.update (toRow a) with ⟨after, _ | e⟩ <;> rw [hstep] at hnone hafter
    · exact ih hrest hafter
    · cases hnone

end Node

namespace Batch

variable {b : Batch} {name : String} {position : Nat} {column : Column} {v : Value}

/-- A column reference that is fed its batch ends up with the value in the last row. -/
theorem WellFormed.finalize_feed_of_column (hb : b.WellFormed) {n : Node} {current : Value}
    (hn : n.withoutAliases = .column name current) {fields : List String} (hname : name ∈ fields)
    (hposition : b.position? name = some position) (hlast : b.lastValue? position = some v) :
    (Node.feed (b.sequence.toList.map (b.projectedRow fields)) n).2 = none ∧
      (Node.feed (b.sequence.toList.map (b.projectedRow fields)) n).1.finalize = .ok v := by
  have hvalue : ∀ physical ∈ b.sequence.toList, (b.projectedRow fields physical).get? name =
      some (b.cell physical name) := fun physical _ => by
    rw [get?_projectedRow, if_pos hname]
  obtain ⟨column, hcolumn, -⟩ := exists_column_of_position? hposition
  obtain ⟨hnone, hafter⟩ := Node.feed_of_column hvalue hn
  refine ⟨hnone, ?_⟩
  rw [← Node.finalize_withoutAliases, hafter, hb.map_cell, view?_of_position? hposition hcolumn,
    Option.map_some, Option.getD_some,
    ← hb.lastValue?_eq_getLast? (lt_numColumns_of_position? hposition), hlast]
  rfl

theorem WellTyped.dataType_of_lastValue? (hb : b.WellTyped)
    (hcolumn : b.columns[position]? = some column) (hlast : b.lastValue? position = some v)
    (hv : v ≠ .null) : v.dataType = column.dataType :=
  (hb position _ column v hcolumn ((b.lastValue?_eq_value? position).symm.trans hlast)).resolve_left
    hv

/-- Passing through agrees with computing. In a batch with rows, a column under any aliases is
passed through, and the value read for it is the one it has once it was fed all that a cursor
yields, over any columns among which it is, through one row that is kept. The outputs differ only in
where the type comes from, and if the values of the batch fit their columns, a value that is not
null has the type its column declares. -/
theorem passThrough_eq_fold (hb : b.Reachable) (hrows : b.numRows ≠ 0) {n : Node} {current : Value}
    (hn : n.withoutAliases = .column name current) {fields : List String}
    (hfields : b.HasColumns fields) (hname : name ∈ fields) :
    ∃ position column v, b.position? name = some position ∧ b.columns[position]? = some column ∧
      b.lastValue? position = some v ∧ b.slot n = .passThrough position ∧
      n.output b (.passThrough position) = .ok (⟨n.identity, column.dataType⟩, v) ∧
      (∃ c after, b.cursor fields = .ok c ∧
        (∀ tuples, c.Yields tuples →
          n.feedKept (c.columns.map Column.name) .empty tuples = (after, none)) ∧
        n.foldBatch b fields = (after, none) ∧ after.finalize = .ok v ∧
        after.output b .computed = .ok (⟨n.identity, v.dataType⟩, v)) ∧
      (b.WellTyped → v ≠ .null → v.dataType = column.dataType) := by
  have hwf := hb.wellFormed
  obtain ⟨position, hposition⟩ := exists_position? (hfields name hname)
  obtain ⟨column, hcolumn, -⟩ := exists_column_of_position? hposition
  obtain ⟨v, hlast, -⟩ := hwf.exists_lastValue? hrows hcolumn
  have hslot : b.slot n = .passThrough position := by
    refine Node.slot_of_position? ?_
    rw [← Node.key_withoutAliases, hn]
    exact hposition
  have houtput : n.output b (.passThrough position) =
      .ok (⟨n.identity, column.dataType⟩, v) := by
    simp only [Node.output, hcolumn, hlast]
  obtain ⟨c, hc⟩ := exists_cursor_eq_ok hfields
  obtain ⟨hnone, hfinalize⟩ := hwf.finalize_feed_of_column hn hname hposition hlast
  have hidentity := Node.identity_feed (b.sequence.toList.map (b.projectedRow fields)) n
  have hfold := Node.foldBatch_of_hasColumns hfields n
  rcases hfeed : Node.feed (b.sequence.toList.map (b.projectedRow fields)) n with ⟨after, outcome⟩
  rw [hfeed] at hnone hfinalize hidentity hfold
  obtain rfl : outcome = none := hnone
  refine ⟨position, column, v, hposition, hcolumn, hlast, hslot, houtput,
    ⟨c, after, hc, fun tuples htuples => ?_, hfold, hfinalize, ?_⟩, ?_⟩
  · rw [Node.feedKept_of_yields hc htuples, hfeed]
  · rw [← hidentity]
    simp only [Node.output, hfinalize]
  · exact fun htyped hv => htyped.dataType_of_lastValue? hcolumn hlast hv

def namesakes (sequence : Array Nat) : Batch :=
  ⟨[⟨"y", .bool⟩, ⟨"x", .int64⟩, ⟨"x", .string⟩],
    [#[.bool true, .null, .null], #[.int64 1, .null, .int64 7],
      #[.string "a", .string "b", .string "c"]], sequence, 3⟩

theorem passThrough_eq_fold_namesakes :
    (namesakes #[1, 0, 2, 2]).Reachable ∧ (namesakes #[1, 0, 2, 2]).numRows ≠ 0 ∧
      (Node.named (.named (.ofColumn "x") "last") "z").withoutAliases = .column "x" .null ∧
      (namesakes #[1, 0, 2, 2]).HasColumns ["x", "y", "x"] ∧ (namesakes #[1, 0, 2, 2]).WellTyped ∧
      ∃ c after, (namesakes #[1, 0, 2, 2]).cursor ["x", "y", "x"] = .ok c ∧
        Node.feedKept (c.columns.map Column.name) .empty c.rest
            (.named (.named (.ofColumn "x") "last") "z") = (after, none) ∧
        after.finalize = .ok (.int64 7) ∧
        after.output (namesakes #[1, 0, 2, 2]) .computed = .ok (⟨"z", .int64⟩, .int64 7) ∧
        (Node.named (.named (.ofColumn "x") "last") "z").output (namesakes #[1, 0, 2, 2])
          (.passThrough 1) = .ok (⟨"z", .int64⟩, .int64 7) := by
  have hcolumns : ofColumns (namesakes #[]).columns (namesakes #[]).arrays =
      .ok (namesakes #[0, 1, 2]) := by rfl
  have hsequence : (namesakes #[0, 1, 2]).withSequence #[1, 0, 2, 2] =
      .ok (namesakes #[1, 0, 2, 2]) := by rfl
  have hb : (namesakes #[1, 0, 2, 2]).Reachable := .withSequence (.ofColumns hcolumns) hsequence
  have hrows : (namesakes #[1, 0, 2, 2]).numRows ≠ 0 := by decide
  have hn : (Node.named (.named (.ofColumn "x") "last") "z").withoutAliases =
      .column "x" .null := by rfl
  have hfields : (namesakes #[1, 0, 2, 2]).HasColumns ["x", "y", "x"] := by decide
  have htyped : (namesakes #[1, 0, 2, 2]).WellTyped := by decide
  obtain ⟨position, column, v, hposition, hcolumn, hlast, -, houtput,
    ⟨c, after, hc, hkept, -, hfinalize, hcomputed⟩, htype⟩ :=
    passThrough_eq_fold hb hrows hn hfields (by decide)
  have hfirst : (namesakes #[1, 0, 2, 2]).position? "x" = some 1 := by rfl
  obtain rfl := Option.some.inj (hposition.symm.trans hfirst)
  have hseven : (namesakes #[1, 0, 2, 2]).lastValue? 1 = some (.int64 7) := by rfl
  obtain rfl := Option.some.inj (hlast.symm.trans hseven)
  rw [← htype htyped (by decide)] at houtput
  exact ⟨hb, hrows, hn, hfields, htyped, c, after, hc, hkept _ (Cursor.yields_iff.2 rfl), hfinalize,
    hcomputed, houtput⟩

end Batch

end Columnar
