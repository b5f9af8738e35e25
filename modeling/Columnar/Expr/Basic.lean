import Columnar.Accumulator
import Columnar.ScalarFunction

/-!
# Expressions

What to compute: a tree of literals, column references, operators, function calls, aggregates and
aliases. An aggregate without an argument runs over the rows themselves. A function is named by any
text; which functions there are is settled by compilation.
-/

namespace Columnar

inductive Expr where
  | literal (value : Value)
  | column (name : String)
  | binary (left : Expr) (op : BinaryOp) (right : Expr)
  | unary (op : UnaryOp) (operand : Expr)
  | call (name : String) (arguments : List Expr)
  | aggregate (function : AggregateFunction) (argument : Expr)
  | aggregateRows (function : AggregateFunction)
  | named (inner : Expr) (name : String)
deriving Inhabited

structure Plan where
  expressions : List Expr

namespace Expr

mutual

def containsAggregate : Expr → Bool
  | literal _ | column _ => false
  | binary left _ right => left.containsAggregate || right.containsAggregate
  | unary _ operand => operand.containsAggregate
  | call _ arguments => anyContainsAggregate arguments
  | aggregate _ _ | aggregateRows _ => true
  | named inner _ => inner.containsAggregate

def anyContainsAggregate : List Expr → Bool
  | [] => false
  | e :: rest => e.containsAggregate || anyContainsAggregate rest

end

mutual

def columnNames : Expr → List String
  | literal _ | aggregateRows _ => []
  | column name => [name]
  | binary left _ right => left.columnNames ++ right.columnNames
  | unary _ operand => operand.columnNames
  | call _ arguments => columnNamesOf arguments
  | aggregate _ argument => argument.columnNames
  | named inner _ => inner.columnNames

def columnNamesOf : List Expr → List String
  | [] => []
  | e :: rest => e.columnNames ++ columnNamesOf rest

end

end Expr

end Columnar
