import Columnar.Batch.Basic

/-!
# Record batches

The exchange form of a batch: named fields of typed cells, each cell holding a content of the
field's type or nothing. A record batch is made from a schema and one array of cells for each of its
fields, and only if these go together (`RecordBatch.defect?`). A batch is written in logical order,
column by column, if every value fits the declared type of its column. Element types that no data
type corresponds to are kept as they are named, and cannot be read.
-/

namespace Columnar

inductive ElementType where
  | int64
  | float32
  | float64
  | boolean
  | utf8
  | date32
  | timestampMicros
  | null
  | other (text : String)
deriving DecidableEq, Repr

namespace ElementType

def text : ElementType → String
  | int64 => "Int64"
  | float32 => "Float32"
  | float64 => "Float64"
  | boolean => "Boolean"
  | utf8 => "Utf8"
  | date32 => "Date32"
  | timestampMicros => "Timestamp(Microsecond, None)"
  | null => "Null"
  | other text => text

def named : List ElementType :=
  [int64, float32, float64, boolean, utf8, date32, timestampMicros, null]

def ofText (t : String) : ElementType :=
  (named.find? fun type => type.text == t).getD (other t)

def dataType? : ElementType → Option DataType
  | int64 => some .int64
  | float32 => some .float32
  | float64 => some .float64
  | boolean => some .bool
  | utf8 => some .string
  | date32 => some .date
  | timestampMicros => some .timestamp
  | null => some .null
  | other _ => none

end ElementType

def DataType.elementType : DataType → ElementType
  | int64 => .int64
  | float32 => .float32
  | float64 => .float64
  | bool => .boolean
  | string => .utf8
  | date => .date32
  | timestamp => .timestampMicros
  | null => .null

@[simp] theorem DataType.dataType?_elementType (t : DataType) :
    t.elementType.dataType? = some t := by
  cases t <;> rfl

inductive Cells where
  | int64 (cells : List (Option Int64))
  | float32 (cells : List (Option Single))
  | float64 (cells : List (Option Double))
  | boolean (cells : List (Option Bool))
  | utf8 (cells : List (Option String))
  | date32 (cells : List (Option Int32))
  | timestampMicros (cells : List (Option Int64))
  | null (length : Nat)
  | other (type : String) (length : Nat)
deriving DecidableEq

namespace Cells

def elementType : Cells → ElementType
  | int64 _ => .int64
  | float32 _ => .float32
  | float64 _ => .float64
  | boolean _ => .boolean
  | utf8 _ => .utf8
  | date32 _ => .date32
  | timestampMicros _ => .timestampMicros
  | null _ => .null
  | other type _ => .other type

def length : Cells → Nat
  | int64 cells => cells.length
  | float32 cells => cells.length
  | float64 cells => cells.length
  | boolean cells => cells.length
  | utf8 cells => cells.length
  | date32 cells => cells.length
  | timestampMicros cells => cells.length
  | null length => length
  | other _ length => length

def nullCount : Cells → Nat
  | int64 cells => cells.countP Option.isNone
  | float32 cells => cells.countP Option.isNone
  | float64 cells => cells.countP Option.isNone
  | boolean cells => cells.countP Option.isNone
  | utf8 cells => cells.countP Option.isNone
  | date32 cells => cells.countP Option.isNone
  | timestampMicros cells => cells.countP Option.isNone
  | null length => length
  | other _ length => length

/-- The number of cells that are marked as empty. Cells of the null type have no marks. -/
def markedEmpty : Cells → Nat
  | null _ => 0
  | cells => cells.nullCount

/-- A list of cells as values, an empty cell being a null. -/
def toValues {α : Type} (content : α → Value) (cells : List (Option α)) : List Value :=
  cells.map fun cell => (cell.map content).getD .null

def values : Cells → List Value
  | int64 cells => toValues .int64 cells
  | float32 cells => toValues .float32 cells
  | float64 cells => toValues .float64 cells
  | boolean cells => toValues .bool cells
  | utf8 cells => toValues .string cells
  | date32 cells => toValues .date cells
  | timestampMicros cells => toValues .timestamp cells
  | null length => List.replicate length .null
  | other _ length => List.replicate length .null

def cell (column : Column) {α : Type} (content? : Value → Option α) (v : Value) :
    Except ReduceError (Option α) :=
  if v.isNull then .ok none
  else
    match content? v with
    | some x => .ok (some x)
    | none => .error (.ofDefect (.mistypedValue column.name column.dataType v.dataType))

/-- The cells of a column's values. The first value that does not fit the column is an error. -/
def ofValues (column : Column) (values : List Value) : Except ReduceError Cells :=
  match column.dataType with
  | .int64 => int64 <$> values.mapM (cell column fun | .int64 n => some n | _ => none)
  | .float32 => float32 <$> values.mapM (cell column fun | .float32 x => some x | _ => none)
  | .float64 => float64 <$> values.mapM (cell column fun | .float64 x => some x | _ => none)
  | .bool => boolean <$> values.mapM (cell column fun | .bool b => some b | _ => none)
  | .string => utf8 <$> values.mapM (cell column fun | .string s => some s | _ => none)
  | .date => date32 <$> values.mapM (cell column fun | .date days => some days | _ => none)
  | .timestamp =>
    timestampMicros <$> values.mapM (cell column fun | .timestamp micros => some micros | _ => none)
  | .null => do
    let cells : List (Option Unit) ← values.mapM (cell column fun _ => none)
    return null cells.length

end Cells

structure Field where
  name : String
  nullable : Bool
  cells : Cells
deriving DecidableEq

/-- What is declared of a field before it has cells. -/
structure FieldSchema where
  name : String
  elementType : ElementType
  nullable : Bool
deriving DecidableEq

structure RecordBatch where
  fields : List Field
deriving DecidableEq

/-- Why a schema and arrays of cells make no record batch. -/
inductive RecordDefect where
  | fieldCount (arrays fields : Nat)
  | noRowCount
  | emptyCell (name : String)
  | unequalLengths
  | mistypedArray (declared actual : ElementType) (index : Nat)
deriving DecidableEq, Repr

def RecordDefect.message : RecordDefect → String
  | fieldCount arrays fields =>
    "number of columns(" ++ natText arrays ++ ") must match number of fields(" ++ natText fields ++
      ") in schema"
  | noRowCount => "must either specify a row count or at least one column"
  | emptyCell name =>
    "Column '" ++ name ++ "' is declared as non-nullable but contains null values"
  | unequalLengths => "all columns in a record batch must have the same length"
  | mistypedArray declared actual index =>
    "column types must match schema types, expected " ++ declared.text ++ " but found " ++
      actual.text ++ " at column index " ++ natText index

def ReduceError.ofRecordDefect (defect : RecordDefect) : ReduceError :=
  .arrow ("Invalid argument error: " ++ defect.message)

namespace RecordBatch

/-- The length of the first array, which tells the number of rows. -/
def rowCount (arrays : List Cells) : Nat := (arrays.head?.map Cells.length).getD 0

/-- The first thing that keeps a schema and arrays from making a record batch. -/
def defect? (schema : List FieldSchema) (arrays : List Cells) : Option RecordDefect :=
  (if arrays.length ≠ schema.length then some (.fieldCount arrays.length schema.length) else none)
    <|> (if arrays = [] then some .noRowCount else none)
    <|> ((schema.zip arrays).findSome? fun (field, cells) =>
      if field.nullable = false ∧ cells.markedEmpty ≠ 0 then some (.emptyCell field.name) else none)
    <|> (if ∃ cells ∈ arrays, cells.length ≠ rowCount arrays then some .unequalLengths else none)
    <|> ((schema.zip arrays).zipIdx.findSome? fun ((field, cells), index) =>
      if cells.elementType ≠ field.elementType then
        some (.mistypedArray field.elementType cells.elementType index)
      else none)

def tryNew (schema : List FieldSchema) (arrays : List Cells) : Except ReduceError RecordBatch :=
  match defect? schema arrays with
  | some defect => .error (.ofRecordDefect defect)
  | none => .ok ⟨(schema.zip arrays).map fun (field, cells) => ⟨field.name, field.nullable, cells⟩⟩

/-- The record batch of fields that are declared to be of the types that their cells have. -/
def ofFields (fields : List Field) : Except ReduceError RecordBatch :=
  tryNew (fields.map fun field => ⟨field.name, field.cells.elementType, field.nullable⟩)
    (fields.map Field.cells)

def numRows (r : RecordBatch) : Nat := (r.fields.head?.map fun field => field.cells.length).getD 0

end RecordBatch

/-! ### Reading and writing -/

def Field.toColumn (field : Field) : Except ReduceError (Column × Array Value) :=
  match field.cells.elementType.dataType? with
  | some dataType => .ok (⟨field.name, dataType⟩, field.cells.values.toArray)
  | none =>
    .error (.unsupportedType
      ("column '" ++ field.name ++ "' has Arrow type " ++ field.cells.elementType.text))

def Batch.ofRecordBatch (record : RecordBatch) : Except ReduceError Batch := do
  let columns ← record.fields.mapM Field.toColumn
  Batch.ofColumns (columns.map Prod.fst) (columns.map Prod.snd)

/-- The values of a column in logical order. -/
def Batch.columnValues (b : Batch) (column : Nat) : List Value :=
  (List.range b.numRows).filterMap fun row => b.value? row column

/-- A column is declared to hold cells of its type, and any of them may be empty. -/
def FieldSchema.ofColumn (column : Column) : FieldSchema :=
  ⟨column.name, column.dataType.elementType, true⟩

def Batch.toRecordBatch (b : Batch) : Except ReduceError RecordBatch := do
  let schema := b.columns.map FieldSchema.ofColumn
  let arrays ← b.columns.zipIdx.mapM fun (column, index) =>
    Cells.ofValues column (b.columnValues index)
  RecordBatch.tryNew schema arrays

end Columnar
