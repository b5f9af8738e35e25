import Columnar.Proofs.Batch.History
import Columnar.Proofs.Batch.Rows

/-!
# What a cursor yields

Values of a batch are found in five ways: one by one, at the last row, as rows, as the tuples of a
cursor and as these tuples under their names. All of them find the same values.

A cursor is stepped forward and sent back in any order. What it has still to yield is at any time
the list of its tuples without as many as it was stepped forward since it was sent back last, so
its position does not occur in what is said of it.
-/

namespace Columnar

namespace Cursor

/-! ### To the end -/

/-- The cursor yields the tuples of a list one after another, and no more. -/
inductive Yields : Cursor → List (List Value) → Prop where
  | done {c : Cursor} (h : c.next? = none) : Yields c []
  | next {c after : Cursor} {tuple : List Value} {tuples : List (List Value)}
      (h : c.next? = some (tuple, after)) (hrest : Yields after tuples) : Yields c (tuple :: tuples)

variable {c : Cursor} {tuples : List (List Value)}

theorem rest_eq_nil_of_next? (h : c.next? = none) : c.rest = [] := by
  unfold next? at h
  split at h
  · cases h
  · next hnone =>
    have hend : c.batch.sequence.toList.length ≤ c.nextRow := Array.getElem?_eq_none_iff.1 hnone
    rw [rest, List.drop_eq_nil_of_le hend, List.map_nil]

theorem yields_iff : c.Yields tuples ↔ tuples = c.rest := by
  constructor
  · intro hyields
    induction hyields with
    | done h => exact (rest_eq_nil_of_next? h).symm
    | next h _ ih => rw [ih, rest_eq_of_next? _ h]
  · induction tuples generalizing c with
    | nil =>
      intro hrest
      cases hnext : c.next? with
      | none => exact .done hnext
      | some yielded => cases hrest.trans (c.rest_eq_of_next? hnext)
    | cons tuple tuples ih =>
      intro hrest
      cases hnext : c.next? with
      | none => cases hrest.trans (rest_eq_nil_of_next? hnext)
      | some yielded =>
        obtain ⟨rfl, htuples⟩ := List.cons.inj (hrest.trans (c.rest_eq_of_next? hnext))
        exact .next hnext (ih htuples)

/-! ### Back and forth -/

inductive Step where
  | next
  | rewind
deriving DecidableEq, Repr

/-- A cursor that has nothing to yield stays where it is. -/
def step (c : Cursor) : Step → Cursor
  | .next => (c.next?.map Prod.snd).getD c
  | .rewind => c.rewind

def after (c : Cursor) (steps : List Step) : Cursor := steps.foldl step c

/-- The steps forward since the cursor was last sent back, if there were `count` before. -/
def Step.count (count : Nat) : Step → Nat
  | next => count + 1
  | rewind => 0

def taken (steps : List Step) : Nat := steps.foldl Step.count 0

theorem rest_step_next (c : Cursor) : (c.step .next).rest = c.rest.tail := by
  unfold step
  cases hnext : c.next? with
  | none =>
    rw [rest_eq_nil_of_next? hnext]
    exact rest_eq_nil_of_next? hnext
  | some yielded =>
    rw [rest_eq_of_next? c hnext]
    rfl

theorem rewind_step (c : Cursor) (s : Step) : (c.step s).rewind = c.rewind := by
  cases s with
  | rewind => rfl
  | next =>
    unfold step next?
    cases c.batch.sequence[c.nextRow]? <;> rfl

theorem rest_step {n : Nat} (h : c.rest = c.rewind.rest.drop n) (s : Step) :
    (c.step s).rest = (c.step s).rewind.rest.drop (s.count n) := by
  rw [rewind_step]
  cases s with
  | next =>
    rw [rest_step_next, h, List.tail_drop]
    rfl
  | rewind => rfl

theorem rewind_after (c : Cursor) (steps : List Step) : (c.after steps).rewind = c.rewind := by
  induction steps generalizing c with
  | nil => rfl
  | cons s steps ih => exact (ih (c.step s)).trans (rewind_step c s)

theorem rest_after_of_drop {n : Nat} (h : c.rest = c.rewind.rest.drop n) (steps : List Step) :
    (c.after steps).rest = c.rewind.rest.drop (steps.foldl Step.count n) := by
  induction steps generalizing c n with
  | nil => exact h
  | cons s steps ih =>
    refine (ih (rest_step h s)).trans ?_
    rw [rewind_step]
    rfl

/-- At any time a cursor has yielded as many tuples as it was stepped forward since the last way
back, or all. -/
theorem rest_after (h : c.rewind = c) (steps : List Step) :
    (c.after steps).rest = c.rest.drop (taken steps) := by
  have hstart : c.rest = c.rewind.rest.drop 0 := by rw [h, List.drop_zero]
  rw [rest_after_of_drop hstart, h]
  rfl

/-- The names of a row do not depend on where the cursor stands. -/
theorem row_after (c : Cursor) (steps : List Step) : (c.after steps).row = c.row := by
  change (c.after steps).rewind.row = c.rewind.row
  rw [rewind_after]

end Cursor

namespace Batch

variable {b : Batch} {names : List String} {c : Cursor}

theorem rewind_of_cursor (hc : b.cursor names = .ok c) : c.rewind = c := by
  obtain ⟨projection, -, rfl⟩ := cursor_eq_ok_iff.1 hc
  rfl

/-! ### The values of a tuple -/

/-- The tuples are the rows of the batch, of which they have the values of the first column of each
name. -/
structure Projects (b : Batch) (names : List String) (tuples : List (List Value)) : Prop where
  length_eq : tuples.length = b.numRows
  rows : ∀ (k : Nat) (row tuple : List Value), b.rows[k]? = some row → tuples[k]? = some tuple →
    tuple.map some = names.map fun name => (b.position? name).bind (row[·]?)
  values : ∀ (k : Nat) (tuple : List Value), tuples[k]? = some tuple →
    tuple.map some = names.map fun name => (b.position? name).bind (b.value? k)

theorem WellFormed.some_cell (hb : b.WellFormed) {physical : Nat}
    (hphysical : physical ∈ b.sequence) {name : String}
    (hname : ∃ column ∈ b.columns, column.name = name) :
    some (b.cell physical name) = (b.position? name).bind (b.physicalValue? · physical) := by
  obtain ⟨p, hp⟩ := exists_position? hname
  unfold cell
  rw [hp]
  exact hb.some_getD_physicalValue? (lt_numColumns_of_position? hp) hphysical

theorem WellFormed.projects_rest (hb : b.WellFormed) (h : b.HasColumns names)
    (hc : b.cursor names = .ok c) : b.Projects names c.rest := by
  have hvalues : ∀ (k : Nat) (tuple : List Value), c.rest[k]? = some tuple →
      tuple.map some = names.map fun name => (b.position? name).bind (b.value? k) := by
    intro k tuple htuple
    rw [rest_of_cursor hc, List.getElem?_map, Array.getElem?_toList] at htuple
    obtain ⟨physical, hphysical, rfl⟩ := Option.map_eq_some_iff.1 htuple
    rw [tuple_of_cursor hc, List.map_map]
    refine List.map_congr_left fun name hname => ?_
    have hvalue : b.value? k = (b.physicalValue? · physical) := by
      funext column
      unfold value?
      rw [hphysical]
      rfl
    rw [hvalue]
    exact hb.some_cell (Array.mem_of_getElem? hphysical) (h name hname)
  refine ⟨?_, fun k row tuple hrow htuple => ?_, hvalues⟩
  · rw [rest_of_cursor hc, List.length_map]
    rfl
  · have hvalue : b.value? k = (row[·]?) := by
      funext column
      rw [hb.value?_eq, hrow, Option.bind_some]
    rw [hvalues k tuple htuple, hvalue]

/-- Under a name that was given more than once, the values are the same each time. -/
theorem get?_row_of_mem_rest (hc : b.cursor names = .ok c) {tuple : List Value}
    (htuple : tuple ∈ c.rest) {i : Nat} {name : String} (hname : names[i]? = some name) :
    (c.row tuple).get? name = tuple[i]? := by
  rw [rest_of_cursor hc] at htuple
  obtain ⟨physical, -, rfl⟩ := List.mem_map.1 htuple
  rw [row_tuple_of_cursor hc, get?_projectedRow, if_pos (List.mem_of_getElem? hname),
    tuple_of_cursor hc, List.getElem?_map, hname, Option.map_some]

/-! ### All ways of reading -/

theorem exists_cursor_eq_error_iff :
    (∃ e, b.cursor names = .error e) ↔ ¬ b.HasColumns names := by
  constructor
  · intro hfails h
    obtain ⟨e, he⟩ := hfails
    obtain ⟨c, hc⟩ := exists_cursor_eq_ok h
    cases he.symm.trans hc
  · intro h
    obtain ⟨name, hfirst⟩ := exists_first_unknown h
    exact ⟨_, cursor_of_unknown hfirst⟩

theorem exists_first_of_cursor_eq_error {e : ReduceError} (h : b.cursor names = .error e) :
    ∃ name, First (fun name => ¬ ∃ column ∈ b.columns, column.name = name) names name ∧
      e = .unknownColumn name := by
  obtain ⟨name, hfirst⟩ := exists_first_unknown (exists_cursor_eq_error_iff.1 ⟨e, h⟩)
  cases h.symm.trans (cursor_of_unknown hfirst)
  exact ⟨name, hfirst.congr fun _ _ => position?_eq_none_iff, rfl⟩

/-- All ways of reading agree. The last value of a column is the value at its last row. Names are
refused if the batch lacks one of them, and then for the first that it lacks. Otherwise the cursor
over them has one tuple for every row, which has the values of that row, and of the batch at that
row, in the first columns of the names; with the names put back, each value is found under its name.
After any steps forward and back the cursor yields exactly the tuples not yet passed and has counted
them, and sent back it yields all again. -/
theorem Reachable.readings_agree (hb : b.Reachable) (names : List String) :
    (∀ column, b.lastValue? column = b.value? (b.numRows - 1) column) ∧
    ((∃ e, b.cursor names = .error e) ↔
      ∃ name ∈ names, ¬ ∃ column ∈ b.columns, column.name = name) ∧
    (∀ e, b.cursor names = .error e →
      ∃ name, First (fun name => ¬ ∃ column ∈ b.columns, column.name = name) names name ∧
        e = .unknownColumn name) ∧
    ((∀ name ∈ names, ∃ column ∈ b.columns, column.name = name) →
      ∃ c tuples, b.cursor names = .ok c ∧ b.Projects names tuples ∧
        (∀ tuple ∈ tuples, ∀ (i : Nat) name, names[i]? = some name →
          (c.row tuple).get? name = tuple[i]?) ∧
        ∀ steps,
          (∀ l, (c.after steps).Yields l ↔ l = tuples.drop (Cursor.taken steps)) ∧
          (c.after steps).remaining = (tuples.drop (Cursor.taken steps)).length ∧
          (∀ l, (c.after steps).rewind.Yields l ↔ l = tuples) ∧
          (c.after steps).row = c.row) := by
  have hwf : b.WellFormed := hb.wellFormed
  refine ⟨b.lastValue?_eq_value?, ?_, fun e he => exists_first_of_cursor_eq_error he, fun h => ?_⟩
  · rw [exists_cursor_eq_error_iff]
    unfold HasColumns
    simp only [not_forall, exists_prop]
  · obtain ⟨c, hc⟩ := exists_cursor_eq_ok h
    have hstart : c.rewind = c := rewind_of_cursor hc
    refine ⟨c, c.rest, hc, hwf.projects_rest h hc,
      fun tuple htuple i name hname => get?_row_of_mem_rest hc htuple hname, fun steps => ?_⟩
    have hrest := Cursor.rest_after hstart steps
    refine ⟨fun l => ?_, ?_, fun l => ?_, c.row_after steps⟩
    · rw [Cursor.yields_iff, hrest]
    · rw [← Cursor.length_rest, hrest]
    · rw [Cursor.yields_iff, Cursor.rewind_after, hstart]

/-- The first column and the last have one name, and one of two stored rows is read twice. -/
def sharedName (sequence : Array Nat) : Batch :=
  ⟨[⟨"x", .int64⟩, ⟨"s", .string⟩, ⟨"x", .bool⟩],
    [#[.int64 1, .int64 2], #[.string "a", .null], #[.bool true, .bool false]], sequence, 2⟩

/-- Of the columns `x` the first is read, whichever way. -/
theorem readings_agree_sharedName :
    (sharedName #[1, 0, 1]).Reachable ∧
    (∃ e, (sharedName #[1, 0, 1]).cursor ["s", "z", "x", "y"] = .error e ∧
      e = .unknownColumn "z") ∧
    (sharedName #[1, 0, 1]).lastValue? 2 = (sharedName #[1, 0, 1]).value? 2 2 ∧
    ∃ (c : Cursor) (tuples : List (List Value)),
      (sharedName #[1, 0, 1]).cursor ["x", "s", "x"] = .ok c ∧
      (∀ tuple, tuples[1]? = some tuple → tuple = [.int64 1, .string "a", .int64 1] ∧
        (c.row tuple).get? "x" = some (.int64 1)) ∧
      (c.after [.next, .next, .rewind, .next]).Yields (tuples.drop 1) ∧
      (c.after [.next, .next, .rewind, .next]).remaining = 2 := by
  have hcolumns : ofColumns (sharedName #[]).columns (sharedName #[]).arrays =
      .ok (sharedName #[0, 1]) := by rfl
  have hsequence : (sharedName #[0, 1]).withSequence #[1, 0, 1] =
      .ok (sharedName #[1, 0, 1]) := by rfl
  have hb : (sharedName #[1, 0, 1]).Reachable := .withSequence (.ofColumns hcolumns) hsequence
  obtain ⟨hlast, hfails, hfirst, -⟩ := hb.readings_agree ["s", "z", "x", "y"]
  obtain ⟨-, -, -, hopens⟩ := hb.readings_agree ["x", "s", "x"]
  obtain ⟨e, he⟩ := hfails.2 ⟨"z", by decide, by decide⟩
  obtain ⟨name, hname, rfl⟩ := hfirst e he
  have hz : First (fun name => ¬ ∃ column ∈ (sharedName #[1, 0, 1]).columns, column.name = name)
      ["s", "z", "x", "y"] "z" := ⟨["s"], ["x", "y"], rfl, by decide, by decide⟩
  obtain rfl := hname.unique hz
  obtain ⟨c, tuples, hc, hprojects, hrow, hsteps⟩ := hopens (by decide)
  obtain ⟨hyields, hremaining, -, -⟩ := hsteps [.next, .next, .rewind, .next]
  refine ⟨hb, ⟨_, he, rfl⟩, hlast 2, c, tuples, hc, fun tuple htuple => ?_, (hyields _).2 rfl, ?_⟩
  · have hsome : tuple.map some = [Value.int64 1, .string "a", .int64 1].map some :=
      hprojects.values 1 tuple htuple
    obtain rfl := List.map_injective_iff.2 (fun _ _ => Option.some.inj) hsome
    exact ⟨rfl, hrow _ (List.mem_of_getElem? htuple) 2 "x" rfl⟩
  · rw [hremaining, List.length_drop, hprojects.length_eq]
    rfl

end Batch

end Columnar
