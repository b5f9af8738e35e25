import Columnar.Node.Fold

/-!
# The meaning of a node

What a node computes, said without the state it keeps. `meaning` gives the value of an expression
over a whole history of rows: a column stands for its value in the last row, and an aggregate folds
the values its argument has over every initial part of the history. `evaluate` gives the value on
one row, children from left to right. `fresh` is the node before it has seen a row; feeding changes
what a node remembers, never which expression it is.
-/

namespace Columnar

/-- The initial parts of a list that are not empty, shortest first. -/
def initialParts {α : Type} : List α → List (List α)
  | [] => []
  | a :: rest => [a] :: (initialParts rest).map (a :: ·)

@[simp] theorem length_initialParts {α : Type} (l : List α) :
    (initialParts l).length = l.length := by
  induction l with
  | nil => rfl
  | cons a rest ih => simp [initialParts, ih]

theorem initialParts_concat {α : Type} (l : List α) (a : α) :
    initialParts (l ++ [a]) = initialParts l ++ [l ++ [a]] := by
  induction l with
  | nil => rfl
  | cons b rest ih => simp [initialParts, ih]

/-- A failure to compute a value, as the fault it is. -/
def Fault.ofEval {α : Type} : Except EvalError α → Except Fault α
  | .ok a => .ok a
  | .error e => .error (.eval e)

/-- The fault in an outcome, if it is one. -/
def Fault.of? {α : Type} : Except Fault α → Option Fault
  | .ok _ => none
  | .error fault => some fault

namespace Node

/-! ### Without state -/

mutual

/-- The node before any row. -/
def fresh : Node → Node
  | constant value => constant value
  | column name _ => ofColumn name
  | binary left op right _ => ofBinary left.fresh op right.fresh
  | unary op operand _ => ofUnary op operand.fresh
  | call function arguments _ => ofCall function (freshAll arguments)
  | aggregate function argument _ => ofAggregate function argument.fresh
  | aggregateRows function _ => ofAggregateRows function
  | named inner name => named inner.fresh name
  | probe label names faultOn => probe label names faultOn

def freshAll : List Node → List Node
  | [] => []
  | n :: rest => n.fresh :: freshAll rest

end

/-! ### Over a history -/

mutual

/-- The value of an expression over a history of rows. -/
def meaning : Node → List Row → Except EvalError Value
  | constant value, _ => .ok value
  | column name _, history =>
    match history.getLast? with
    | none => .ok .null
    | some row =>
      match row.get? name with
      | some v => .ok v
      | none => .error (.missingField name)
  | binary left op right _, history => do
    op.apply (← left.meaning history) (← right.meaning history)
  | unary op operand _, history => do op.apply (← operand.meaning history)
  | call function arguments _, history => do function.apply (← meaningAll arguments history)
  | aggregate function argument _, history => do
    let vs ← (initialParts history).mapM argument.meaning
    return (← (Accumulator.start function).foldAll vs).result
  | aggregateRows function _, history => do
    return (← (Accumulator.start function).foldAll (history.map fun _ => .bool true)).result
  | named inner _, history => inner.meaning history
  | probe _ _ _, _ => .ok .null

def meaningAll : List Node → List Row → Except EvalError (List Value)
  | [], _ => .ok []
  | n :: rest, history => do
    let v ← n.meaning history
    return v :: (← meaningAll rest history)

end

/-! ### On one row -/

mutual

/-- The value of an expression on one row alone. -/
def evaluate (row : Row) : Node → Except Fault Value
  | constant value => .ok value
  | column name _ =>
    match row.get? name with
    | some v => .ok v
    | none => .error (.eval (.missingField name))
  | binary left op right _ => do
    let l ← left.evaluate row
    let r ← right.evaluate row
    Fault.ofEval (op.apply l r)
  | unary op operand _ => do
    let v ← operand.evaluate row
    Fault.ofEval (op.apply v)
  | call function arguments _ => do
    let vs ← evaluateAll row arguments
    Fault.ofEval (function.apply vs)
  | aggregate function argument _ => do
    let v ← argument.evaluate row
    Fault.ofEval (((Accumulator.start function).take v).map Accumulator.result)
  | aggregateRows function _ =>
    Fault.ofEval (((Accumulator.start function).take (.bool true)).map Accumulator.result)
  | named inner _ => inner.evaluate row
  | probe _ names faultOn =>
    match faultOn (names.map row.get?) with
    | none => .ok .null
    | some fault => .error fault

def evaluateAll (row : Row) : List Node → Except Fault (List Value)
  | [] => .ok []
  | n :: rest => do
    let v ← n.evaluate row
    return v :: (← evaluateAll row rest)

end

end Node

end Columnar
