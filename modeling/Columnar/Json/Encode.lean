import Columnar.Batch.Basic
import Columnar.Expr.Basic
import Columnar.Json.Basic
import Columnar.Value.Literal

/-!
# Documents of values and plans

An alternative is written as an object whose only key names it, or as that name alone when it
carries nothing. Floats have the fewest digits that read back, and the point is in its place for
magnitudes within a range that depends on the width; a float that is no number, or infinite, is
written as a null.
-/

namespace Columnar

/-- Wide floats have their point in its place from a hundred-thousandth up to below ten to the
sixteenth. -/
def doubleLayout : Numeral.Layout := ⟨.toEven, -5, 16, true⟩

/-- Narrow floats have it from a millionth up to below ten to the thirteenth. -/
def singleLayout : Numeral.Layout := ⟨.toEven, -6, 13, true⟩

namespace Json

def variant (name : String) (content : Json) : Json := ofMembers [(name, content)]

def ofInt (n : Int) : Json := number (.ofInt n)

def ofFloat {f : FloatFormat} (layout : Numeral.Layout) : Floating f → Json
  | .nan => null
  | .number negative code _ =>
    if code = f.infinityCode then null else number (layout.shortest f negative code)

end Json

def DataType.tag : DataType → String
  | int64 => "Int64"
  | float32 => "Float32"
  | float64 => "Float64"
  | bool => "Bool"
  | string => "String"
  | date => "Date"
  | timestamp => "Timestamp"
  | null => "Null"

def Value.toJson (v : Value) : Json :=
  match v with
  | int64 n => .variant v.dataType.tag (.ofInt n.toInt)
  | float32 x => .variant v.dataType.tag (.ofFloat singleLayout x)
  | float64 x => .variant v.dataType.tag (.ofFloat doubleLayout x)
  | bool b => .variant v.dataType.tag (.bool b)
  | string s => .variant v.dataType.tag (.ofString s)
  | date days => .variant v.dataType.tag (.ofInt days.toInt)
  | timestamp micros => .variant v.dataType.tag (.ofInt micros.toInt)
  | null => .ofString v.dataType.tag

def DataType.toJson (t : DataType) : Json := .ofString t.tag

def Column.toJson (c : Column) : Json :=
  .ofMembers [("name", .ofString c.name), ("data_type", c.dataType.toJson)]

def Json.ofStorage (values : List Value) : Json :=
  .ofMembers [("data", .array (values.map Value.toJson))]

/-! ### Operators and functions -/

def BinaryOp.tag : BinaryOp → String
  | arithmetic .add => "Add"
  | arithmetic .sub => "Sub"
  | arithmetic .mul => "Mul"
  | arithmetic .div => "Div"
  | arithmetic .mod => "Mod"
  | comparison .eq => "Eq"
  | comparison .neq => "Neq"
  | comparison .lt => "Lt"
  | comparison .lte => "Lte"
  | comparison .gt => "Gt"
  | comparison .gte => "Gte"
  | logical .and => "And"
  | logical .or => "Or"

def UnaryOp.tag : UnaryOp → String
  | not => "Not"
  | neg => "Neg"

def AggregateFunction.tag : AggregateFunction → String
  | count => "Count"
  | sum => "Sum"
  | avg => "Avg"
  | min => "Min"
  | max => "Max"

def ScalarFunction.tag : ScalarFunction → String
  | abs => "Abs"
  | upper => "Upper"
  | lower => "Lower"
  | length => "Length"
  | coalesce => "Coalesce"

/-! ### Expressions -/

mutual

def Expr.toJson : Expr → Json
  | literal value => .variant "Literal" value.toJson
  | column name => .variant "Column" (.ofString name)
  | binary left op right =>
    .variant "Binary"
      (.ofMembers [("left", left.toJson), ("op", .ofString op.tag), ("right", right.toJson)])
  | unary op operand =>
    .variant "Unary" (.ofMembers [("op", .ofString op.tag), ("operand", operand.toJson)])
  | call name arguments =>
    .variant "Function"
      (.ofMembers [("name", .ofString name), ("args", .array (Expr.toJsonAll arguments))])
  | aggregate function argument =>
    .variant "Aggregate"
      (.ofMembers [("function", .ofString function.tag), ("arg", argument.toJson)])
  | aggregateRows function =>
    .variant "Aggregate" (.ofMembers [("function", .ofString function.tag), ("arg", .null)])
  | named inner name =>
    .variant "Alias" (.ofMembers [("expr", inner.toJson), ("alias", .ofString name)])

def Expr.toJsonAll : List Expr → List Json
  | [] => []
  | e :: rest => e.toJson :: Expr.toJsonAll rest

end

def Plan.toJson (plan : Plan) : Json :=
  .ofMembers [("expressions", .array (Expr.toJsonAll plan.expressions))]

end Columnar
