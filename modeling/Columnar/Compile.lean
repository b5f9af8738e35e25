import Columnar.Expr.Basic
import Columnar.Node.Basic

/-!
# Compilation

Compilation turns the expressions of a plan into fresh nodes, or says what is wrong with the first
that is not well formed. Function names are resolved and their arguments counted before the
arguments are looked at; an aggregate below another one is found before the argument is compiled; an
alias is checked before what it names.
-/

namespace Columnar

inductive CompileError where
  | unknownFunction (name : String)
  | wrongArity (function : ScalarFunction) (count : Nat)
  | nestedAggregate (function : AggregateFunction)
  | missingArgument (function : AggregateFunction)
  | emptyAlias
deriving DecidableEq, Repr

def CompileError.message : CompileError → String
  | unknownFunction name => "unknown function '" ++ name ++ "'"
  | wrongArity function count =>
    function.name ++ " does not take " ++ natText count ++ " argument(s)"
  | nestedAggregate function =>
    "aggregate " ++ function.name ++ " cannot contain another aggregate"
  | missingArgument function => function.name ++ " requires an argument"
  | emptyAlias => "empty alias"

namespace Expr

mutual

def compile : Expr → Except CompileError Node
  | literal value => .ok (.constant value)
  | column name => .ok (.ofColumn name)
  | binary left op right => do
    let l ← left.compile
    let r ← right.compile
    return .ofBinary l op r
  | unary op operand => do return .ofUnary op (← operand.compile)
  | call name arguments =>
    match ScalarFunction.ofName? name with
    | none => .error (.unknownFunction name)
    | some function =>
      if function.accepts arguments.length then do return .ofCall function (← compileAll arguments)
      else .error (.wrongArity function arguments.length)
  | aggregate function argument =>
    if argument.containsAggregate then .error (.nestedAggregate function)
    else do return .ofAggregate function (← argument.compile)
  | aggregateRows function =>
    if function = .count then .ok (.ofAggregateRows function)
    else .error (.missingArgument function)
  | named inner name =>
    if name = "" then .error .emptyAlias else do return .named (← inner.compile) name

def compileAll : List Expr → Except CompileError (List Node)
  | [] => .ok []
  | e :: rest => do
    let n ← e.compile
    return n :: (← compileAll rest)

end

end Expr

def Plan.compile (plan : Plan) : Except CompileError (List Node) := Expr.compileAll plan.expressions

end Columnar
