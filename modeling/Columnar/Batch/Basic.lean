import Columnar.Error
import Columnar.Value.Basic

/-!
# Batches

A batch stores its rows column by column and keeps their logical order apart: the row sequence lists
the physical positions of the rows, so a batch is reordered, filtered or has rows repeated without a
value being moved. What a batch means is its list of rows in logical order. A row that is written
goes to the end of the arrays and to the end of the sequence.
-/

namespace Columnar

structure Column where
  name : String
  dataType : DataType
deriving DecidableEq, Repr, Inhabited

structure Batch where
  columns : List Column
  /-- One array of values for each column. -/
  arrays : List (Array Value)
  /-- The physical positions of the rows, in logical order. -/
  sequence : Array Nat
  /-- The length of every array. -/
  physicalRows : Nat
deriving DecidableEq, Inhabited

/-- What makes a batch, or data for one, unusable. -/
inductive BatchDefect where
  | columnCount (columns arrays : Nat)
  | columnLength (name : String) (actual expected : Nat)
  | rowIndex (index rows : Nat)
  | noLastRow (name : String)
  | mistypedValue (name : String) (declared actual : DataType)
deriving DecidableEq, Repr

def BatchDefect.message : BatchDefect → String
  | columnCount columns arrays =>
    natText columns ++ " columns but " ++ natText arrays ++ " value arrays"
  | columnLength name actual expected =>
    "column '" ++ name ++ "' has " ++ natText actual ++ " values, expected " ++ natText expected
  | rowIndex index rows =>
    "row index " ++ natText index ++ " out of bounds for " ++ natText rows ++ " physical rows"
  | noLastRow name => "no last row for column '" ++ name ++ "'"
  | mistypedValue name declared actual =>
    "column '" ++ name ++ "' of type " ++ declared.name ++ " holds a " ++ actual.name ++ " value"

def ReduceError.ofDefect (defect : BatchDefect) : ReduceError := .invalidBatch defect.message

namespace Batch

/-- The arrays and the sequence agree with the columns and the number of physical rows. -/
structure WellFormed (b : Batch) : Prop where
  arrays_length : b.arrays.length = b.columns.length
  array_size : ∀ a ∈ b.arrays, a.size = b.physicalRows
  sequence_lt : ∀ i ∈ b.sequence, i < b.physicalRows

/-! ### Reading -/

variable (b : Batch)

def numRows : Nat := b.sequence.size

def numColumns : Nat := b.columns.length

/-- The position of the first column with the given name. -/
def position? (name : String) : Option Nat := b.columns.findIdx? fun c => c.name == name

def column? (name : String) : Option Column := b.columns.find? fun c => c.name == name

/-- The value of a column at a physical position. -/
def physicalValue? (column physical : Nat) : Option Value := do (← b.arrays[column]?)[physical]?

/-- The value of a column at a logical row. -/
def value? (row column : Nat) : Option Value := do b.physicalValue? column (← b.sequence[row]?)

def lastValue? (column : Nat) : Option Value := do b.physicalValue? column (← b.sequence.back?)

def physicalRow (physical : Nat) : List Value := b.arrays.map fun a => a[physical]?.getD .null

/-- The rows in logical order. -/
def rows : List (List Value) := b.sequence.toList.map b.physicalRow

/-! ### Building -/

def new (columns : List Column) : Batch := ⟨columns, columns.map fun _ => #[], #[], 0⟩

def identitySequence (count : Nat) : Array Nat := Array.range count

def ofColumns (columns : List Column) (arrays : List (Array Value)) : Except ReduceError Batch :=
  if columns.length ≠ arrays.length then
    .error (.ofDefect (.columnCount columns.length arrays.length))
  else
    let rows := (arrays.head?.map Array.size).getD 0
    match (columns.zip arrays).find? fun (_, a) => a.size != rows with
    | some (c, a) => .error (.ofDefect (.columnLength c.name a.size rows))
    | none => .ok ⟨columns, arrays, identitySequence rows, rows⟩

/-- The arrays with a value of the row at the end of each, as far as both go. -/
def pushEach : List (Array Value) → List Value → List (Array Value)
  | a :: arrays, v :: row => a.push v :: pushEach arrays row
  | arrays, _ => arrays

/-- Writes a row into the batch, after the last. -/
def writeRow (row : List Value) : Batch × Option ReduceError :=
  if row.length ≠ b.columns.length then (b, some (.rowArity b.columns.length row.length))
  else
    let b := { b with arrays := pushEach b.arrays row }
    let b := { b with sequence := b.sequence.push b.physicalRows }
    let b := { b with physicalRows := b.physicalRows + 1 }
    (b, none)

/-- Writes rows one after another, up to the first that cannot be written. -/
def writeRows (rows : List (List Value)) : Except ReduceError Batch :=
  rows.foldlM (fun b row => b.writeRow row) b

def ofRows (columns : List Column) (rows : List (List Value)) : Except ReduceError Batch :=
  (new columns).writeRows rows

def withSequence (sequence : Array Nat) : Except ReduceError Batch :=
  match sequence.find? fun i => b.physicalRows ≤ i with
  | some i => .error (.ofDefect (.rowIndex i b.physicalRows))
  | none => .ok { b with sequence := sequence }

theorem new_wellFormed (columns : List Column) : (new columns).WellFormed where
  arrays_length := by simp [new]
  array_size := by simp [new]
  sequence_lt := by simp [new]

@[simp] theorem rows_new (columns : List Column) : (new columns).rows = [] := rfl

end Batch

end Columnar
