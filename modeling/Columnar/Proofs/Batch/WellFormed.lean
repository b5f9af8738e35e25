import Columnar.Batch.Reachable
import Columnar.Proofs.Outcomes

/-!
# Reachable batches are well formed

Every operation that builds a batch gives one whose arrays and sequence agree with its columns and
its number of physical rows, whatever batch it starts from. A reduction needs no fact about its
input: its result is a header or one row written into an empty batch.
-/

namespace Columnar

namespace Batch

theorem pushEach_eq_zipWith {arrays : List (Array Value)} {row : List Value}
    (h : arrays.length = row.length) :
    pushEach arrays row = List.zipWith Array.push arrays row := by
  induction arrays generalizing row with
  | nil => cases row <;> rfl
  | cons a rest ih =>
    cases row with
    | nil => cases h
    | cons v row => rw [pushEach, ih (Nat.succ.inj h), List.zipWith_cons_cons]

/-- Writing a row extends every array by one value and the sequence by the position of all these. -/
theorem writeRow_eq_ok_iff {b after : Batch} {row : List Value} :
    b.writeRow row = (after, none) ↔ row.length = b.numColumns ∧
      after = ⟨b.columns, pushEach b.arrays row, b.sequence.push b.physicalRows,
        b.physicalRows + 1⟩ := by
  unfold Batch.writeRow
  by_cases hlength : row.length = b.columns.length
  · rw [if_neg (not_not.2 hlength), Prod.mk.injEq]
    exact ⟨fun h => ⟨hlength, h.1.symm⟩, fun h => ⟨h.2.symm, rfl⟩⟩
  · rw [if_pos hlength]
    refine ⟨fun h => ?_, fun h => absurd h.1 hlength⟩
    cases h

/-- A row that does not fit is found out before anything is written. -/
theorem writeRow_eq_error_iff {b after : Batch} {row : List Value} {e : ReduceError} :
    b.writeRow row = (after, some e) ↔
      row.length ≠ b.numColumns ∧ after = b ∧ e = .rowArity b.numColumns row.length := by
  unfold Batch.writeRow
  by_cases hlength : row.length = b.columns.length
  · rw [if_neg (not_not.2 hlength)]
    refine ⟨fun h => ?_, fun h => absurd hlength h.1⟩
    cases h
  · rw [if_pos hlength, Prod.mk.injEq, Option.some.injEq]
    exact ⟨fun h => ⟨hlength, h.1.symm, h.2.symm⟩, fun h => ⟨h.2.1.symm, h.2.2.symm⟩⟩

theorem WellFormed.writeRow {b after : Batch} {row : List Value} (hb : b.WellFormed)
    (h : b.writeRow row = (after, none)) : after.WellFormed := by
  obtain ⟨hrow, rfl⟩ := writeRow_eq_ok_iff.1 h
  rw [pushEach_eq_zipWith (hb.arrays_length.trans hrow.symm)]
  refine ⟨?_, ?_, ?_⟩
  · rw [List.length_zipWith, hb.arrays_length, hrow, numColumns, Nat.min_self]
  · intro a ha
    obtain ⟨i, hi, rfl⟩ := List.mem_iff_getElem.1 ha
    rw [List.getElem_zipWith, Array.size_push, hb.array_size _ (List.getElem_mem _)]
  · intro i hi
    rcases Array.mem_push.1 hi with hi | rfl
    · exact Nat.lt_succ_of_lt (hb.sequence_lt i hi)
    · exact Nat.lt_succ_self _

/-- What a write leaves is well formed, also when it fails. -/
theorem WellFormed.fst_writeRow {b : Batch} (hb : b.WellFormed) (row : List Value) :
    (b.writeRow row).1.WellFormed := by
  rcases h : b.writeRow row with ⟨after, _ | e⟩
  · exact hb.writeRow h
  · rw [(writeRow_eq_error_iff.1 h).2.1]
    exact hb

theorem WellFormed.withSequence {b after : Batch} {sequence : Array Nat} (hb : b.WellFormed)
    (h : b.withSequence sequence = .ok after) : after.WellFormed := by
  unfold Batch.withSequence at h
  split at h
  · cases h
  · next hnone =>
    cases h
    refine ⟨hb.arrays_length, hb.array_size, fun i hi => ?_⟩
    have hbound := Array.find?_eq_none.1 hnone i hi
    exact Nat.lt_of_not_le fun hle => hbound (decide_eq_true hle)

theorem ofColumns_wellFormed {b : Batch} {columns : List Column} {arrays : List (Array Value)}
    (h : ofColumns columns arrays = .ok b) : b.WellFormed := by
  unfold ofColumns at h
  split at h
  · cases h
  · next hcount =>
    have hlength : columns.length = arrays.length := not_not.1 hcount
    dsimp only at h
    split at h
    · cases h
    · next hnone =>
      cases h
      refine ⟨hlength.symm, fun a ha => ?_, fun i hi => ?_⟩
      · rw [← List.map_snd_zip (Nat.le_of_eq hlength.symm)] at ha
        obtain ⟨⟨c, a⟩, hca, rfl⟩ := List.mem_map.1 ha
        have hsize := List.find?_eq_none.1 hnone _ hca
        exact not_not.1 fun hne => hsize (bne_iff_ne.2 hne)
      · exact Array.mem_range.1 hi

theorem writeRows_cons (b : Batch) (row : List Value) (rows : List (List Value)) :
    b.writeRows (row :: rows) = stepOutcome (b.writeRow row) >>= fun next => next.writeRows rows :=
  List.foldlM_cons

theorem WellFormed.writeRows {b after : Batch} {rows : List (List Value)} (hb : b.WellFormed)
    (h : b.writeRows rows = .ok after) : after.WellFormed := by
  induction rows generalizing b with
  | nil =>
    cases h
    exact hb
  | cons row rest ih =>
    rw [writeRows_cons] at h
    obtain ⟨next, hnext, h⟩ := bind_eq_ok_iff.1 h
    exact ih (hb.writeRow (stepOutcome_eq_ok_iff.1 hnext)) h

theorem ofRecordBatch_wellFormed {b : Batch} {record : RecordBatch}
    (h : ofRecordBatch record = .ok b) : b.WellFormed := by
  obtain ⟨columns, -, h⟩ := bind_eq_ok_iff.1 h
  exact ofColumns_wellFormed h

theorem reduceNodes_wellFormed {b after : Batch} {nodes : List Node} {fields : List String}
    (h : (b.reduceNodes nodes fields).2 = .ok after) : after.WellFormed := by
  unfold Batch.reduceNodes at h
  split at h
  · cases h
    exact new_wellFormed _
  · dsimp only at h
    split at h
    · cases h
    · obtain ⟨outputs, -, h⟩ := bind_eq_ok_iff.1 h
      exact (new_wellFormed _).writeRow (stepOutcome_eq_ok_iff.1 h)

theorem Reachable.wellFormed {b : Batch} (h : b.Reachable) : b.WellFormed := by
  induction h with
  | new columns => exact new_wellFormed columns
  | ofColumns h => exact ofColumns_wellFormed h
  | ofRows h => exact (new_wellFormed _).writeRows h
  | ofRecordBatch h => exact ofRecordBatch_wellFormed h
  | writeRow row _ ih => exact ih.fst_writeRow row
  | withSequence _ h ih => exact ih.withSequence h
  | reduceNodes _ h _ => exact reduceNodes_wellFormed h

/-! ### Reading the last row -/

theorem WellFormed.exists_physicalValue? {b : Batch} (hb : b.WellFormed) {p physical : Nat}
    {c : Column} (hp : b.columns[p]? = some c) (hphysical : physical < b.physicalRows) :
    ∃ v, b.physicalValue? p physical = some v ∧ (b.physicalRow physical)[p]? = some v := by
  obtain ⟨hlt, -⟩ := List.getElem?_eq_some_iff.1 hp
  have harray : p < b.arrays.length := hb.arrays_length ▸ hlt
  have hsize : physical < b.arrays[p].size :=
    hb.array_size _ (List.getElem_mem harray) ▸ hphysical
  refine ⟨b.arrays[p][physical], ?_, ?_⟩
  · unfold physicalValue?
    rw [List.getElem?_eq_getElem harray]
    exact Array.getElem?_eq_getElem hsize
  · unfold physicalRow
    rw [List.getElem?_map, List.getElem?_eq_getElem harray]
    change some (b.arrays[p][physical]?.getD .null) = _
    rw [Array.getElem?_eq_getElem hsize]
    rfl

theorem WellFormed.exists_lastValue? {b : Batch} (hb : b.WellFormed) (hrows : b.numRows ≠ 0)
    {p : Nat} {c : Column} (hp : b.columns[p]? = some c) :
    ∃ v, b.lastValue? p = some v ∧ b.rows.getLast?.bind (·[p]?) = some v := by
  have hne : b.sequence ≠ #[] := fun h => hrows (congrArg Array.size h)
  obtain ⟨physical, hlast⟩ :=
    Option.ne_none_iff_exists'.1 fun h => hne (Array.back?_eq_none_iff.1 h)
  have hphysical := hb.sequence_lt physical (Array.mem_of_back? hlast)
  obtain ⟨v, hvalue, hrow⟩ := hb.exists_physicalValue? hp hphysical
  refine ⟨v, ?_, ?_⟩
  · unfold lastValue?
    rw [hlast]
    exact hvalue
  · unfold rows
    rw [List.getLast?_map, Array.getLast?_toList, hlast]
    exact hrow

end Batch

end Columnar
