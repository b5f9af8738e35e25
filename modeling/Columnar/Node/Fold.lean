import Columnar.Node.Basic
import Columnar.Row

/-!
# Feeding rows to a node

`update` feeds one row and `finalize` gives the result of all rows so far. Children are fed from
left to right and the first failure ends the step: nodes already fed keep what they learned, and a
value remembered earlier stays until a later row succeeds.
-/

namespace Columnar

namespace Node

mutual

/-- The result of all rows fed so far. A node that has seen none is evaluated on its children's
empty results. -/
def finalize : Node → Except EvalError Value
  | constant value => .ok value
  | column _ current => .ok current
  | binary _ _ _ (some v) => .ok v
  | binary left op right none => do op.apply (← left.finalize) (← right.finalize)
  | unary _ _ (some v) => .ok v
  | unary op operand none => do op.apply (← operand.finalize)
  | call _ _ (some v) => .ok v
  | call function arguments none => do function.apply (← finalizeAll arguments)
  | aggregate _ _ acc => .ok acc.result
  | aggregateRows _ acc => .ok acc.result
  | named inner _ => inner.finalize
  | probe _ _ _ => .ok .null

def finalizeAll : List Node → Except EvalError (List Value)
  | [] => .ok []
  | n :: rest => do
    let v ← n.finalize
    return v :: (← finalizeAll rest)

end

/-- The node with a newly computed value in place of the remembered one. If there is none the old
one stays. -/
def remember (rebuild : Option Value → Node) (current : Option Value)
    (computed : Except EvalError Value) : Node × Option Fault :=
  match computed with
  | .ok v => (rebuild (some v), none)
  | .error e => (rebuild current, some (.eval e))

/-- The aggregate with one more value folded in, once the value is there. -/
def foldInto (rebuild : Accumulator → Node) (acc : Accumulator)
    (value : Except EvalError Value) : Node × Option Fault :=
  match value with
  | .error e => (rebuild acc, some (.eval e))
  | .ok v =>
    let (acc, refused) := acc.fold v
    (rebuild acc, refused.map .eval)

theorem foldInto_of_ok {rebuild : Accumulator → Node} {acc next : Accumulator} {v : Value}
    (h : acc.take v = .ok next) : foldInto rebuild acc (.ok v) = (rebuild next, none) := by
  change (rebuild (acc.fold v).1, (acc.fold v).2.map Fault.eval) = _
  rw [Accumulator.fold_of_take h]
  rfl

theorem foldInto_of_error {rebuild : Accumulator → Node} {acc : Accumulator} {v : Value}
    {e : EvalError} (h : acc.take v = .error e) :
    foldInto rebuild acc (.ok v) = (rebuild acc, some (.eval e)) := by
  change (rebuild (acc.fold v).1, (acc.fold v).2.map Fault.eval) = _
  rw [Accumulator.fold_of_take_error h]
  rfl

/-- Whether it is the value that fails or the fold, the aggregate keeps the state it had. -/
theorem foldInto_eq (rebuild : Accumulator → Node) (acc : Accumulator)
    (value : Except EvalError Value) :
    foldInto rebuild acc value =
      match value >>= acc.take with
      | .ok next => (rebuild next, none)
      | .error e => (rebuild acc, some (.eval e)) := by
  cases value with
  | error e => rfl
  | ok v =>
    rw [show (Except.ok v >>= acc.take) = acc.take v from rfl]
    cases h : acc.take v with
    | ok next => exact foldInto_of_ok h
    | error e => exact foldInto_of_error h

mutual

/-- The node after one row, and the fault that ended the step early, if one did. -/
def update (row : Row) : Node → Node × Option Fault
  | constant value => (constant value, none)
  | column name current =>
    match row.get? name with
    | some v => (column name v, none)
    | none => (column name current, some (.eval (.missingField name)))
  | binary left op right current =>
    match left.update row with
    | (left, some e) => (binary left op right current, some e)
    | (left, none) =>
      match right.update row with
      | (right, some e) => (binary left op right current, some e)
      | (right, none) =>
        if left.containsAggregate || right.containsAggregate then
          (binary left op right current, none)
        else
          remember (binary left op right) current (finalize (binary left op right none))
  | unary op operand current =>
    match operand.update row with
    | (operand, some e) => (unary op operand current, some e)
    | (operand, none) =>
      if operand.containsAggregate then (unary op operand current, none)
      else remember (unary op operand) current (finalize (unary op operand none))
  | call function arguments current =>
    match updateAll row arguments with
    | (arguments, some e) => (call function arguments current, some e)
    | (arguments, none) =>
      if anyContainsAggregate arguments then (call function arguments current, none)
      else remember (call function arguments) current (finalize (call function arguments none))
  | aggregate function argument acc =>
    match argument.update row with
    | (argument, some e) => (aggregate function argument acc, some e)
    | (argument, none) => foldInto (aggregate function argument) acc argument.finalize
  | aggregateRows function acc => foldInto (aggregateRows function) acc (.ok (.bool true))
  | named inner name =>
    match inner.update row with
    | (inner, outcome) => (named inner name, outcome)
  | probe label names faultOn => (probe label names faultOn, faultOn (names.map row.get?))

/-- The nodes after one row, up to and including the first that fails. -/
def updateAll (row : Row) : List Node → List Node × Option Fault
  | [] => ([], none)
  | n :: rest =>
    match n.update row with
    | (n, some e) => (n :: rest, some e)
    | (n, none) =>
      match updateAll row rest with
      | (rest, outcome) => (n :: rest, outcome)

end

def feed : List Row → Node → Node × Option Fault
  | [], n => (n, none)
  | row :: rows, n =>
    match n.update row with
    | (n, some e) => (n, some e)
    | (n, none) => feed rows n

@[simp] theorem feed_nil (n : Node) : feed [] n = (n, none) := rfl

end Node

end Columnar
