import Columnar.Batch.Basic
import Columnar.Row

/-!
# Cursors

A cursor walks the logical rows of a batch and yields the values of the columns it was opened over.
`rest` is what it has still to yield; stepping takes its first tuple.
-/

namespace Columnar

structure Cursor where
  batch : Batch
  /-- The columns the cursor reads, with their positions in the batch. -/
  projection : List (Nat × Column)
  nextRow : Nat

namespace Batch

/-- The first column with the given name and its position. -/
def locate (b : Batch) (name : String) : Except ReduceError (Nat × Column) :=
  match b.position? name, b.column? name with
  | some position, some column => .ok (position, column)
  | _, _ => .error (.unknownColumn name)

def cursor (b : Batch) (names : List String) : Except ReduceError Cursor := do
  return ⟨b, ← names.mapM b.locate, 0⟩

end Batch

namespace Cursor

variable (c : Cursor)

def columns : List Column := c.projection.map Prod.snd

/-- The tuple at a physical position. A value that is not there is read as a null. -/
def tuple (physical : Nat) : List Value :=
  c.projection.map fun (position, _) => (c.batch.physicalValue? position physical).getD .null

/-- The tuples still to come. -/
def rest : List (List Value) := (c.batch.sequence.toList.drop c.nextRow).map c.tuple

def remaining : Nat := c.batch.numRows - c.nextRow

def next? : Option (List Value × Cursor) :=
  match c.batch.sequence[c.nextRow]? with
  | some physical => some (c.tuple physical, { c with nextRow := c.nextRow + 1 })
  | none => none

def rewind : Cursor := { c with nextRow := 0 }

/-- A tuple with the names of the columns. -/
def row (values : List Value) : Row := Row.ofPairs ((c.columns.map Column.name).zip values)

theorem length_rest : c.rest.length = c.remaining := by
  simp [rest, remaining, Batch.numRows]

theorem rest_eq_of_next? {values : List Value} {after : Cursor}
    (h : c.next? = some (values, after)) : c.rest = values :: after.rest := by
  unfold next? at h
  split at h
  · next physical hphysical =>
    obtain ⟨rfl, rfl⟩ := Prod.mk.inj (Option.some.inj h)
    obtain ⟨hlt, hget⟩ := Array.getElem?_eq_some_iff.1 hphysical
    have hdrop := List.drop_eq_getElem_cons
      (show c.nextRow < c.batch.sequence.toList.length from hlt)
    rw [Array.getElem_toList, hget] at hdrop
    rw [rest, hdrop, List.map_cons]
    rfl
  · exact absurd h (by simp)

end Cursor

end Columnar
