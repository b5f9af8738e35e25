import Columnar.Json.Encode
import Columnar.Json.Reader

/-!
# Values and plans from documents

An alternative is read from its name alone if it carries nothing, or else from an object whose only
key is its name. A structure is read from an object, whose other keys do not matter and whose own
may not be repeated, or from an array of its fields in order. Integers have to be written as
integers and to fit; any number is read as a float, to the nearest. Objects and arrays nest to a
limited depth: each that is entered takes one from the levels left.
-/

namespace Columnar

namespace Json

/-- The number of objects and arrays that may be open at once. -/
def maxDepth : Nat := 127

def onlyMember? : Json → Option (String × Json)
  | object [(some name, content)] => some (name, content)
  | _ => none

/-- The name of an alternative that carries nothing: alone, or as a key with a null. -/
def unitVariant? (depth : Nat) : Json → Option String
  | string content => content
  | object [(some name, null)] => if depth = 0 then none else some name
  | _ => none

/-- The member of an object with the given key, if there is at most one. -/
def member? (members : List (Option String × Json)) (name : String) : Option (Option Json) :=
  match members.filter fun m => m.1 == some name with
  | [] => some none
  | [(_, value)] => some (some value)
  | _ => none

/-- The fields of a structure in the order of their names. A field may be missing from an object. -/
def fields? (names : List String) : Json → Option (List (Option Json))
  | object members =>
    if members.all fun m => m.1.isSome then names.mapM (member? members) else none
  | array elements =>
    if elements.length = names.length then some (elements.map some) else none
  | _ => none

def elements? : Json → Option (List Json)
  | array elements => some elements
  | _ => none

def text? : Json → Option String
  | string content => content
  | _ => none

def bool? : Json → Option Bool
  | bool b => some b
  | _ => none

def int? (least greatest : Int) : Json → Option Int
  | number n => n.int?.filter fun i => least ≤ i && i ≤ greatest
  | _ => none

def int64? (j : Json) : Option Int64 :=
  (j.int? Int64.minValue.toInt Int64.maxValue.toInt).map Int64.ofInt

def int32? (j : Json) : Option Int32 :=
  (j.int? Int32.minValue.toInt Int32.maxValue.toInt).map Int32.ofInt

/-- Whether an integer is below the signed 64-bit ones while its magnitude still fits 64 bits. -/
def isWideNegative (i : Int) : Bool := i < Int64.minValue.toInt && -UInt64.size < i

/-- The float nearest to a number. A number too large for the format is refused. More digits than
any halfway point has are not told apart. A negative integer that takes an unsigned word is rounded
to the widest format before all. -/
def float? {f : FloatFormat} : Json → Option (Floating f)
  | number n =>
    match n.int?.filter isWideNegative with
    | some i => some ((Floating.ofInt i : Double).convert f)
    | none =>
      let d := n.decimalWithin f.halfwayDigits
      if f.readDecimal d = f.infinityCode then none else some (.ofDecimal n.negative d)
  | _ => none

end Json

/-- The member of a list that has the given tag. -/
def byTag {α : Type} (tag : α → String) (all : List α) (name : String) : Option α :=
  all.find? fun x => tag x == name

/-! ### Values and columns -/

def DataType.all : List DataType := [int64, float32, float64, bool, string, date, timestamp, null]

def DataType.ofJson? (depth : Nat) (j : Json) : Option DataType := do
  byTag DataType.tag all (← j.unitVariant? depth)

def Value.ofContent? (t : DataType) (j : Json) : Option Value :=
  match t with
  | .int64 => j.int64?.map int64
  | .float32 => j.float?.map float32
  | .float64 => j.float?.map float64
  | .bool => j.bool?.map bool
  | .string => j.text?.map string
  | .date => j.int32?.map date
  | .timestamp => j.int64?.map timestamp
  | .null => none

def Value.ofJson? (depth : Nat) (j : Json) : Option Value :=
  if j.unitVariant? depth = some DataType.null.tag then some null
  else
    match depth, j.onlyMember? with
    | _ + 1, some (name, content) => do
      Value.ofContent? (← byTag DataType.tag DataType.all name) content
    | _, _ => none

def Column.ofJson? : Nat → Json → Option Column
  | 0, _ => none
  | left + 1, j =>
    match j.fields? ["name", "data_type"] with
    | some [some name, some dataType] => do
      return ⟨← name.text?, ← DataType.ofJson? left dataType⟩
    | _ => none

def storageOfJson? : Nat → Json → Option (List Value)
  | left + 2, j =>
    match j.fields? ["data"] with
    | some [some data] => do (← data.elements?).mapM (Value.ofJson? left)
    | _ => none
  | _, _ => none

/-! ### Operators and functions -/

def BinaryOp.all : List BinaryOp :=
  [.arithmetic .add, .arithmetic .sub, .arithmetic .mul, .arithmetic .div, .arithmetic .mod,
    .comparison .eq, .comparison .neq, .comparison .lt, .comparison .lte, .comparison .gt,
    .comparison .gte, .logical .and, .logical .or]

def UnaryOp.all : List UnaryOp := [not, neg]

def AggregateFunction.all : List AggregateFunction := [count, sum, avg, min, max]

def BinaryOp.ofJson? (depth : Nat) (j : Json) : Option BinaryOp := do
  byTag BinaryOp.tag all (← j.unitVariant? depth)

def UnaryOp.ofJson? (depth : Nat) (j : Json) : Option UnaryOp := do
  byTag UnaryOp.tag all (← j.unitVariant? depth)

def AggregateFunction.ofJson? (depth : Nat) (j : Json) : Option AggregateFunction := do
  byTag AggregateFunction.tag all (← j.unitVariant? depth)

def ScalarFunction.ofJson? (depth : Nat) (j : Json) : Option ScalarFunction := do
  byTag ScalarFunction.tag all (← j.unitVariant? depth)

/-! ### Expressions -/

def Expr.leafOfJson? (left : Nat) (name : String) (content : Json) : Option Expr :=
  match name with
  | "Literal" => (Value.ofJson? left content).map literal
  | "Column" => content.text?.map column
  | _ => none

/-- An expression read from the name of an alternative and its content, by readers for its parts and
for a list of arguments. -/
def Expr.ofAlternative? (left : Nat) (part : Json → Option Expr)
    (arguments : Json → Option (List Expr)) (name : String) (content : Json) : Option Expr :=
  match name with
  | "Binary" =>
    match content.fields? ["left", "op", "right"] with
    | some [some l, some op, some r] => do
      return binary (← part l) (← BinaryOp.ofJson? left op) (← part r)
    | _ => none
  | "Unary" =>
    match content.fields? ["op", "operand"] with
    | some [some op, some operand] => do
      return unary (← UnaryOp.ofJson? left op) (← part operand)
    | _ => none
  | "Function" =>
    match content.fields? ["name", "args"] with
    | some [some name, some args] => do return call (← name.text?) (← arguments args)
    | _ => none
  | "Aggregate" =>
    match content.fields? ["function", "arg"] with
    | some [some function, none] | some [some function, some .null] => do
      return aggregateRows (← AggregateFunction.ofJson? left function)
    | some [some function, some argument] => do
      return aggregate (← AggregateFunction.ofJson? left function) (← part argument)
    | _ => none
  | "Alias" =>
    match content.fields? ["expr", "alias"] with
    | some [some inner, some name] => do return named (← part inner) (← name.text?)
    | _ => none
  | _ => leafOfJson? (left + 1) name content

/-- An expression read from a document. An alternative with parts takes two levels, and a list of
arguments a third. -/
def Expr.ofJson? : Nat → Json → Option Expr
  | 0, _ => none
  | 1, j => do
    let (name, content) ← j.onlyMember?
    leafOfJson? 0 name content
  | 2, j => do
    let (name, content) ← j.onlyMember?
    ofAlternative? 0 (ofJson? 0) (fun _ => none) name content
  | inner + 3, j => do
    let (name, content) ← j.onlyMember?
    ofAlternative? (inner + 1) (ofJson? (inner + 1))
      (fun args => do (← args.elements?).mapM (ofJson? inner)) name content

def Plan.ofJson? : Nat → Json → Option Plan
  | left + 2, j =>
    match j.fields? ["expressions"] with
    | some [some expressions] => do
      return ⟨← (← expressions.elements?).mapM (Expr.ofJson? left)⟩
    | _ => none
  | _, _ => none

end Columnar
