import Columnar.Accumulator
import Columnar.ScalarFunction
import Columnar.Text.Names

/-!
# Evaluation nodes

A node is an expression together with what it has seen so far. Constants see nothing, a column
remembers its last value, an aggregate keeps an accumulator, and operators and function calls
remember the value of the last row, but only when no aggregate lies below them: above an aggregate
there is nothing to compute before the last row. Every node has two texts. Its identity names the
output column, and its key is what an existing column has to be called to make computing the node
needless; they differ in that an alias replaces the identity of what it names and is passed over by
the key.

Beside the nodes of expressions there are probes. A probe computes nothing; which fault it ends a
row with, if any, is an arbitrary function of the row's values in the columns it reads. Probes stand
for code that a node may run into and that is not known here, above all for code that gives up the
task it runs in.
-/

namespace Columnar

/-- Why feeding a row did not succeed: a value could not be computed, or the task was given up. -/
inductive Fault where
  | eval (error : EvalError)
  | panic (payload : Option String)
deriving DecidableEq

inductive Node where
  | constant (value : Value)
  | column (name : String) (current : Value)
  | binary (left : Node) (op : BinaryOp) (right : Node) (current : Option Value)
  | unary (op : UnaryOp) (operand : Node) (current : Option Value)
  | call (function : ScalarFunction) (arguments : List Node) (current : Option Value)
  | aggregate (function : AggregateFunction) (argument : Node) (acc : Accumulator)
  | aggregateRows (function : AggregateFunction) (acc : Accumulator)
  | named (inner : Node) (name : String)
  | probe (label : String) (names : List String) (faultOn : List (Option Value) → Option Fault)
deriving Inhabited

namespace Node

/-! ### Fresh nodes -/

def ofColumn (name : String) : Node := column name .null

def ofBinary (left : Node) (op : BinaryOp) (right : Node) : Node := binary left op right none

def ofUnary (op : UnaryOp) (operand : Node) : Node := unary op operand none

def ofCall (function : ScalarFunction) (arguments : List Node) : Node :=
  call function arguments none

def ofAggregate (function : AggregateFunction) (argument : Node) : Node :=
  aggregate function argument (.start function)

def ofAggregateRows (function : AggregateFunction) : Node :=
  aggregateRows function (.start function)

/-- A probe that gives up its task on every row, with a text or without. -/
def fault (payload : Option String) : Node := probe "PANIC()" [] fun _ => some (.panic payload)

mutual

def containsAggregate : Node → Bool
  | constant _ | column _ _ | probe _ _ _ => false
  | binary left _ right _ => left.containsAggregate || right.containsAggregate
  | unary _ operand _ => operand.containsAggregate
  | call _ arguments _ => anyContainsAggregate arguments
  | aggregate _ _ _ | aggregateRows _ _ => true
  | named inner _ => inner.containsAggregate

def anyContainsAggregate : List Node → Bool
  | [] => false
  | n :: rest => n.containsAggregate || anyContainsAggregate rest

end

mutual

def columnNames : Node → List String
  | constant _ | aggregateRows _ _ => []
  | column name _ => [name]
  | binary left _ right _ => left.columnNames ++ right.columnNames
  | unary _ operand _ => operand.columnNames
  | call _ arguments _ => columnNamesOf arguments
  | aggregate _ argument _ => argument.columnNames
  | named inner _ => inner.columnNames
  | probe _ names _ => names

def columnNamesOf : List Node → List String
  | [] => []
  | n :: rest => n.columnNames ++ columnNamesOf rest

end

/-! ### Texts -/

/-- The text of a unary operator applied to a written operand. -/
def unaryText (op : UnaryOp) (operand : String) : String :=
  match op with
  | .not => "(NOT " ++ operand ++ ")"
  | .neg => "(-" ++ operand ++ ")"

mutual

/-- The text of a node, with aliases standing for what they name or passed over. -/
def text (aliases : Bool) : Node → String
  | constant value => value.literal
  | column name _ => name
  | binary left op right _ =>
    "(" ++ left.text aliases ++ " " ++ op.symbol ++ " " ++ right.text aliases ++ ")"
  | unary op operand _ => unaryText op (operand.text aliases)
  | call function arguments _ =>
    function.name ++ "(" ++ String.intercalate ", " (textAll aliases arguments) ++ ")"
  | aggregate function argument _ => function.name ++ "(" ++ argument.text aliases ++ ")"
  | aggregateRows function _ => function.name ++ "(*)"
  | named inner name => if aliases then name else inner.text aliases
  | probe label _ _ => label

def textAll (aliases : Bool) : List Node → List String
  | [] => []
  | n :: rest => n.text aliases :: textAll aliases rest

end

/-- The name of the output column of a node. -/
def identity (n : Node) : String := n.text true

/-- The column name that makes computing a node needless. -/
def key (n : Node) : String := n.text false

/-! ### Leaf columns -/

def leafColumns (nodes : List Node) : List String := Text.sortNames (columnNamesOf nodes)

end Node

end Columnar
