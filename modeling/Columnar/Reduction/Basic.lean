import Columnar.Batch.Cursor
import Columnar.Compile
import Columnar.Failures
import Columnar.Node.Fold

/-!
# Reducing a batch

A batch is reduced by a plan to one row. An expression whose key names a column of the batch is not
computed: its value is that column's at the last row. Every other one is a task of its own, which
walks all rows with a cursor over the leaf columns and stops at its first failure. No task sees
another; when several fail, the one of lowest position is reported. A batch without rows reduces to
a header whose columns are strings.
-/

namespace Columnar

/-- Where the value of an output column comes from. -/
inductive Slot where
  | passThrough (position : Nat)
  | computed
deriving DecidableEq, Repr

namespace Batch

variable (b : Batch)

def slot (n : Node) : Slot :=
  match b.position? n.key with
  | some position => .passThrough position
  | none => .computed

def partition (nodes : List Node) : List Slot := nodes.map b.slot

end Batch

/-! ### Tasks -/

def Fault.report : Fault → ReduceError
  | eval error => .eval error
  | panic payload => .threadPanic (payload.getD "unknown panic")

/-- Feeds every row of the batch, projected onto the given columns, to a node. -/
def Node.foldBatch (b : Batch) (fields : List String) (n : Node) : Node × Option ReduceError :=
  match b.cursor fields with
  | .error e => (n, some e)
  | .ok cursor =>
    let (n, failure) := n.feed (cursor.rest.map cursor.row)
    (n, failure.map Fault.report)

def Node.runTask (b : Batch) (fields : List String) (n : Node) : Slot → Node × Option ReduceError
  | .passThrough _ => (n, none)
  | .computed => n.foldBatch b fields

def Failures.ofTasks {ε : Type} (outcomes : List (Option ε)) : Failures ε :=
  outcomes.zipIdx.foldl
    (fun failures (outcome, position) =>
      match outcome with
      | some failure => failures.record position failure
      | none => failures)
    .empty

/-- Runs all tasks. The failure of lowest position is the result's. -/
def evaluate (b : Batch) (fields : List String) (nodes : List Node) (slots : List Slot) :
    List Node × Option ReduceError :=
  let outcomes := (nodes.zip slots).map fun (n, slot) => n.runTask b fields slot
  let failures := Failures.ofTasks (outcomes.map Prod.snd)
  (outcomes.map Prod.fst, failures.takeFirst.1.map Prod.snd)

/-! ### The output batch -/

def headerOnly (nodes : List Node) : Batch :=
  Batch.new (nodes.map fun n => ⟨n.identity, .string⟩)

def Node.output (b : Batch) (n : Node) : Slot → Except ReduceError (Column × Value)
  | .passThrough position =>
    match b.columns[position]?, b.lastValue? position with
    | some source, some v => .ok (⟨n.identity, source.dataType⟩, v)
    | source, _ => .error (.ofDefect (.noLastRow ((source.map Column.name).getD "")))
  | .computed =>
    match n.finalize with
    | .ok v => .ok (⟨n.identity, v.dataType⟩, v)
    | .error e => .error (.eval e)

/-- The one-row result, once every task is done. -/
def materialize (b : Batch) (nodes : List Node) (slots : List Slot) : Except ReduceError Batch := do
  let outputs ← (nodes.zip slots).mapM fun (n, slot) => n.output b slot
  (Batch.new (outputs.map Prod.fst)).writeRow (outputs.map Prod.snd)

/-! ### Reduction -/

/-- Reduces a batch with nodes, which keep what they see. The tasks read the given columns, each
once and in ascending order. -/
def Batch.reduceNodes (b : Batch) (nodes : List Node) (fields : List String) :
    List Node × Except ReduceError Batch :=
  if b.numRows = 0 then (nodes, .ok (headerOnly nodes))
  else
    let slots := b.partition nodes
    match evaluate b (Text.sortNames fields) nodes slots with
    | (nodes, some e) => (nodes, .error e)
    | (nodes, none) => (nodes, materialize b nodes slots)

/-- Reduces a batch by a plan. -/
def Batch.reduce (b : Batch) (plan : Plan) : Except ReduceError Batch :=
  match plan.compile with
  | .error e => .error (.compile e.message)
  | .ok nodes => (b.reduceNodes nodes (Node.leafColumns nodes)).2

end Columnar
