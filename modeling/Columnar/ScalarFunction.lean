import Columnar.Operator
import Columnar.Text.Case

/-!
# Scalar functions

Functions of the values of one row. A function is found by its name without regard to the case of
ASCII letters. All but one take a single argument and answer a null with a null; coalescing takes
any positive number and gives the first that is not null.
-/

namespace Columnar

inductive ScalarFunction where
  | abs
  | upper
  | lower
  | length
  | coalesce
deriving DecidableEq, Repr

namespace ScalarFunction

def all : List ScalarFunction := [abs, upper, lower, length, coalesce]

def name : ScalarFunction → String
  | abs => "ABS"
  | upper => "UPPER"
  | lower => "LOWER"
  | length => "LENGTH"
  | coalesce => "COALESCE"

def ofName? (text : String) : Option ScalarFunction :=
  all.find? fun function => function.name.toList == text.toList.map Char.toUpper

def accepts (function : ScalarFunction) (arity : Nat) : Bool :=
  match function with
  | coalesce => 1 ≤ arity
  | _ => arity == 1

def applyOne (function : ScalarFunction) (argument : Value) : Except EvalError Value :=
  match function, argument with
  | coalesce, v => .ok v
  | _, .null => .ok .null
  | abs, .int64 n => checkedOr ("ABS(" ++ intText n.toInt ++ ")") (checked n.toInt.natAbs)
  | abs, .float32 x => .ok (.float32 x.abs)
  | abs, .float64 x => .ok (.float64 x.abs)
  | abs, v => .error (.wrongType "numeric" v)
  | upper, .string s => .ok (.string (String.ofList (Text.upper s.toList)))
  | lower, .string s => .ok (.string (String.ofList (Text.lower s.toList)))
  | length, .string s => .ok (.int64 (Int64.ofNat s.length))
  | _, v => .error (.wrongType "STRING" v)

/-- The function on a list of arguments, of which all but coalescing reads the first. -/
def apply (function : ScalarFunction) (arguments : List Value) : Except EvalError Value :=
  match function with
  | coalesce => .ok ((arguments.find? fun v => !v.isNull).getD .null)
  | _ => function.applyOne (arguments.headD .null)

end ScalarFunction

end Columnar
