import Columnar.Proofs.Batch.Rows

/-!
# Writing is appending

A row is written at the next physical position, however many of the stored rows the sequence has
left out or repeats, so for the list of logical rows it is one more at the end. A row that does not
fit the columns changes nothing, and rows written one after another leave those that fit, in order.
Building a batch from rows stops at the first that does not fit.
-/

namespace Columnar

namespace Batch

variable {b after : Batch} {row : List Value} {e : ReduceError}

/-! ### One row -/

theorem snd_writeRow_eq_none_iff : (b.writeRow row).2 = none ↔ row.length = b.numColumns := by
  rcases h : b.writeRow row with ⟨after, _ | e⟩
  · exact iff_of_true rfl (writeRow_eq_ok_iff.1 h).1
  · exact iff_of_false (by simp) (writeRow_eq_error_iff.1 h).1

theorem writeRow_of_length (h : row.length = b.numColumns) :
    ∃ after, b.writeRow row = (after, none) :=
  ⟨(b.writeRow row).1, Prod.ext rfl (snd_writeRow_eq_none_iff.2 h)⟩

theorem writeRow_of_length_ne (h : row.length ≠ b.numColumns) :
    b.writeRow row = (b, some (.rowArity b.numColumns row.length)) :=
  writeRow_eq_error_iff.2 ⟨h, rfl, rfl⟩

theorem numColumns_of_writeRow (h : b.writeRow row = (after, none)) :
    after.numColumns = b.numColumns := by
  rw [(writeRow_eq_ok_iff.1 h).2]
  rfl

theorem WellFormed.value?_writeRow (hb : b.WellFormed) (h : b.writeRow row = (after, none))
    {k : Nat} (hk : k < b.numRows) (column : Nat) : after.value? k column = b.value? k column := by
  rw [(hb.writeRow h).value?_eq, hb.value?_eq, hb.rows_writeRow h,
    List.getElem?_append_left (by rwa [length_rows])]

/-! ### Rows after one another -/

theorem WellFormed.rows_foldl_writeRow (hb : b.WellFormed) (rows : List (List Value)) :
    (rows.foldl (fun b row => (b.writeRow row).1) b).rows =
      b.rows ++ rows.filter fun row => row.length = b.numColumns := by
  induction rows generalizing b with
  | nil => exact (List.append_nil b.rows).symm
  | cons row rest ih =>
    rw [List.foldl_cons, ih (hb.fst_writeRow row)]
    by_cases hlength : row.length = b.numColumns
    · obtain ⟨after, hafter⟩ := writeRow_of_length hlength
      have hkept : ((row :: rest).filter fun row => row.length = b.numColumns) =
          row :: rest.filter fun row => row.length = b.numColumns :=
        List.filter_cons_of_pos (decide_eq_true hlength)
      rw [hkept, hafter, hb.rows_writeRow hafter, numColumns_of_writeRow hafter,
        List.append_assoc]
      rfl
    · have hkept : ((row :: rest).filter fun row => row.length = b.numColumns) =
          rest.filter fun row => row.length = b.numColumns :=
        List.filter_cons_of_neg fun h => hlength (of_decide_eq_true h)
      rw [hkept, writeRow_of_length_ne hlength]

/-- Writing in one go ends at the first row that does not fit. -/
theorem writeRows_eq_error_iff {rows : List (List Value)} :
    b.writeRows rows = .error e ↔
      ∃ row, First (fun row => row.length ≠ b.numColumns) rows row ∧
        e = .rowArity b.numColumns row.length := by
  induction rows generalizing b with
  | nil =>
    refine iff_of_false (fun h => ?_) fun ⟨row, hfirst, _⟩ => not_first_nil hfirst
    cases h
  | cons row rest ih =>
    rw [writeRows_cons]
    simp only [first_cons_iff]
    by_cases hlength : row.length = b.numColumns
    · obtain ⟨after, hafter⟩ := writeRow_of_length hlength
      rw [hafter]
      change after.writeRows rest = .error e ↔ _
      rw [ih, numColumns_of_writeRow hafter]
      simp [hlength]
    · rw [writeRow_of_length_ne hlength]
      change Except.error _ = Except.error e ↔ _
      simp [hlength, eq_comm]

theorem ofRows_eq_error_iff {columns : List Column} {rows : List (List Value)} :
    ofRows columns rows = .error e ↔
      ∃ row, First (fun row => row.length ≠ columns.length) rows row ∧
        e = .rowArity columns.length row.length :=
  writeRows_eq_error_iff

theorem exists_ofRows_iff {columns : List Column} {rows : List (List Value)} :
    (∃ built, ofRows columns rows = .ok built) ↔ ∀ row ∈ rows, row.length = columns.length := by
  constructor
  · intro hbuilds row hrow
    obtain ⟨built, hbuilt⟩ := hbuilds
    by_contra hlength
    obtain ⟨first, hfirst⟩ :=
      exists_first (p := fun row => row.length ≠ columns.length) ⟨row, hrow, hlength⟩
    cases hbuilt.symm.trans (ofRows_eq_error_iff.2 ⟨first, hfirst, rfl⟩)
  · intro hrows
    obtain ⟨built, hbuilt, -⟩ := exists_ofRows hrows
    exact ⟨built, hbuilt⟩

/-- Into any batch that can be built a row is written exactly if it has a value for each column.
Then it is the one new row, the last, and no row before it is another; if it has not, the two counts
are reported, and the batch that the write leaves is the one it was given. So of any rows written
one after another those that fit are appended, in order. A batch is built from rows exactly if all
of them fit; these are its rows, and otherwise the first that does not fit is reported. -/
theorem writeRow_appends (hb : b.Reachable) :
    (∀ row, (b.writeRow row).2 = none ↔ row.length = b.numColumns) ∧
    (∀ row after, b.writeRow row = (after, none) →
      after.columns = b.columns ∧ after.rows = b.rows ++ [row] ∧
        ∀ k < b.numRows, ∀ column, after.value? k column = b.value? k column) ∧
    (∀ row after e, b.writeRow row = (after, some e) →
      after = b ∧ e = .rowArity b.numColumns row.length) ∧
    (∀ rows : List (List Value), (rows.foldl (fun b row => (b.writeRow row).1) b).rows =
      b.rows ++ rows.filter fun row => row.length = b.numColumns) ∧
    ∀ columns rows,
      ((∃ built, ofRows columns rows = .ok built) ↔ ∀ row ∈ rows, row.length = columns.length) ∧
      (∀ built, ofRows columns rows = .ok built → built.columns = columns ∧ built.rows = rows) ∧
      ∀ e, ofRows columns rows = .error e →
        ∃ row, First (fun row => row.length ≠ columns.length) rows row ∧
          e = .rowArity columns.length row.length := by
  have hwf := hb.wellFormed
  refine ⟨fun row => snd_writeRow_eq_none_iff, fun row after h => ?_,
    fun row after e h => (writeRow_eq_error_iff.1 h).2, hwf.rows_foldl_writeRow,
    fun columns rows => ⟨exists_ofRows_iff, fun built h => ?_, fun e => ofRows_eq_error_iff.1⟩⟩
  · refine ⟨?_, hwf.rows_writeRow h, fun k hk column => hwf.value?_writeRow h hk column⟩
    rw [(writeRow_eq_ok_iff.1 h).2]
  · obtain ⟨other, hother, hcolumns, hrows⟩ := exists_ofRows (exists_ofRows_iff.1 ⟨built, h⟩)
    cases hother.symm.trans h
    exact ⟨hcolumns, hrows⟩

def storedRows (sequence : Array Nat) : Batch :=
  ⟨[⟨"x", .int64⟩, ⟨"s", .string⟩],
    [#[.int64 1, .int64 2, .int64 3], #[.string "a", .null, .string "c"]], sequence, 3⟩

/-- The new row follows the logical rows, although it is stored after one that they leave out, and
a row that does not fit is not written between two that do. -/
theorem writeRow_appends_storedRows :
    (storedRows #[1, 1]).Reachable ∧
      (∃ after, (storedRows #[1, 1]).writeRow [.int64 4, .string "d"] = (after, none) ∧
        after.sequence = #[1, 1, 3] ∧
        after.rows = [[.int64 2, .null], [.int64 2, .null], [.int64 4, .string "d"]]) ∧
      (∃ after e, (storedRows #[1, 1]).writeRow [.int64 4] = (after, some e) ∧
        after = storedRows #[1, 1] ∧ e = .rowArity 2 1) ∧
      ([[.int64 4, .string "d"], [.int64 5], [.null, .null]].foldl
          (fun b row => (b.writeRow row).1) (storedRows #[1, 1])).rows =
        [[.int64 2, .null], [.int64 2, .null], [.int64 4, .string "d"], [.null, .null]] ∧
      ∃ e, ofRows (storedRows #[]).columns [[.int64 1, .null], [.int64 2], []] = .error e ∧
        e = .rowArity 2 1 := by
  have hcolumns : ofColumns (storedRows #[]).columns (storedRows #[]).arrays =
      .ok (storedRows #[0, 1, 2]) := by rfl
  have hsequence : (storedRows #[0, 1, 2]).withSequence #[1, 1] = .ok (storedRows #[1, 1]) := by rfl
  have hb : (storedRows #[1, 1]).Reachable := .withSequence (.ofColumns hcolumns) hsequence
  obtain ⟨hfits, hwrite, hrefuse, hrows, hbuild⟩ := writeRow_appends hb
  have hwritten : (storedRows #[1, 1]).writeRow [.int64 4, .string "d"] =
      (⟨(storedRows #[]).columns,
        [#[.int64 1, .int64 2, .int64 3, .int64 4],
          #[.string "a", .null, .string "c", .string "d"]],
        #[1, 1, 3], 4⟩, none) := by rfl
  have hbuilt : ofRows (storedRows #[]).columns [[.int64 1, .null], [.int64 2], []] =
      .error (.rowArity 2 1) := by rfl
  refine ⟨hb, ⟨_, hwritten, rfl, (hwrite _ _ hwritten).2.1⟩, ?_, hrows _, _, hbuilt, ?_⟩
  · rcases hrefused : (storedRows #[1, 1]).writeRow [.int64 4] with ⟨after, _ | e⟩
    · cases (hfits [.int64 4]).1 (congrArg Prod.snd hrefused)
    · exact ⟨after, e, rfl, hrefuse _ _ _ hrefused⟩
  · obtain ⟨row, hrow, he⟩ := (hbuild _ _).2.2 _ hbuilt
    have hfirst : First (fun row : List Value => row.length ≠ (storedRows #[]).columns.length)
        [[.int64 1, .null], [.int64 2], []] [.int64 2] :=
      ⟨[[.int64 1, .null]], [[]], rfl, by decide, by decide⟩
    rw [he, hrow.unique hfirst]

end Batch

end Columnar
