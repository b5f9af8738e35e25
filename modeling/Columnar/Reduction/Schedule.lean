import Columnar.Reduction.Basic

/-!
# Schedules

The tasks of one evaluation run side by side, and each proceeds in small steps: it opens its cursor,
then for every row looks whether it is to stop and feeds the row. A task that fails sets the flag
the others look at, where failures cancel at all, and records its failure. A schedule says whose
step comes next. The flag and the collector are all that tasks share, so a step of one task changes
the node of no other.
-/

namespace Columnar

structure Workload where
  batch : Batch
  fields : List String
  /-- Whether a failure stops the other tasks. -/
  cancels : Bool

/-- What a task does next. -/
inductive Phase where
  | opening
  | testing (rows : List Row)
  | feeding (row : Row) (rows : List Row)
  | flagging (failure : ReduceError)
  | recording (failure : ReduceError)
  | done
deriving DecidableEq

structure Task where
  node : Node
  phase : Phase

namespace Task

def start (n : Node) : Slot → Task
  | .passThrough _ => ⟨n, .done⟩
  | .computed => ⟨n, .opening⟩

def advance (w : Workload) (flag : Bool) (t : Task) : Task :=
  match t.phase with
  | .opening =>
    match w.batch.cursor w.fields with
    | .error e => ⟨t.node, .flagging e⟩
    | .ok cursor => ⟨t.node, .testing (cursor.rest.map cursor.row)⟩
  | .testing [] => ⟨t.node, .done⟩
  | .testing (row :: rows) => if flag then ⟨t.node, .done⟩ else ⟨t.node, .feeding row rows⟩
  | .feeding row rows =>
    match t.node.update row with
    | (n, none) => ⟨n, .testing rows⟩
    | (n, some fault) => ⟨n, .flagging fault.report⟩
  | .flagging e => ⟨t.node, .recording e⟩
  | .recording _ => ⟨t.node, .done⟩
  | .done => t

def flags (w : Workload) (t : Task) : Bool :=
  match t.phase with
  | .flagging _ => w.cancels
  | _ => false

def recorded? (t : Task) : Option ReduceError :=
  match t.phase with
  | .recording e => some e
  | _ => none

end Task

/-- Where all tasks of an evaluation stand, with what they share. -/
structure Run where
  tasks : List Task
  flag : Bool
  failures : Failures ReduceError

namespace Run

def start (nodes : List Node) (slots : List Slot) : Run :=
  ⟨List.zipWith Task.start nodes slots, false, .empty⟩

def step (w : Workload) (run : Run) (position : Nat) : Run :=
  match run.tasks[position]? with
  | none => run
  | some t =>
    { tasks := run.tasks.set position (t.advance w run.flag)
      flag := run.flag || t.flags w
      failures :=
        match t.recorded? with
        | some failure => run.failures.record position failure
        | none => run.failures }

def follow (w : Workload) (run : Run) (schedule : List Nat) : Run := schedule.foldl (step w) run

/-- No task has anything left to do. -/
def Finished (run : Run) : Prop := ∀ t ∈ run.tasks, t.phase = .done

/-- The nodes, and the failure of lowest position. -/
def outcome (run : Run) : List Node × Option ReduceError :=
  (run.tasks.map Task.node, run.failures.takeFirst.1.map Prod.snd)

@[simp] theorem follow_nil (w : Workload) (run : Run) : run.follow w [] = run := rfl

@[simp] theorem follow_cons (w : Workload) (run : Run) (position : Nat) (schedule : List Nat) :
    run.follow w (position :: schedule) = (run.step w position).follow w schedule := rfl

@[simp] theorem length_tasks_step (w : Workload) (run : Run) (position : Nat) :
    (run.step w position).tasks.length = run.tasks.length := by
  unfold step
  split <;> simp

theorem tasks_step_of_ne (w : Workload) (run : Run) {position other : Nat}
    (h : position ≠ other) : (run.step w position).tasks[other]? = run.tasks[other]? := by
  unfold step
  split
  · rfl
  · exact List.getElem?_set_ne h

end Run

/-! ### Reductions under any schedule -/

/-- The outcomes with which an evaluation can end. -/
def Workload.MayEnd (w : Workload) (nodes : List Node) (slots : List Slot)
    (outcome : List Node × Option ReduceError) : Prop :=
  ∃ schedule : List Nat, ((Run.start nodes slots).follow w schedule).Finished ∧
    ((Run.start nodes slots).follow w schedule).outcome = outcome

namespace Batch

/-- The results that a reduction with nodes can have. -/
inductive MayReduceNodes (b : Batch) (cancels : Bool) (nodes : List Node) (fields : List String) :
    Except ReduceError Batch → Prop where
  | empty (h : b.numRows = 0) : MayReduceNodes b cancels nodes fields (.ok (headerOnly nodes))
  | failed {after : List Node} {e : ReduceError} (h : b.numRows ≠ 0)
      (hend : Workload.MayEnd ⟨b, Text.sortNames fields, cancels⟩ nodes (b.partition nodes)
        (after, some e)) :
      MayReduceNodes b cancels nodes fields (.error e)
  | done {after : List Node} (h : b.numRows ≠ 0)
      (hend : Workload.MayEnd ⟨b, Text.sortNames fields, cancels⟩ nodes (b.partition nodes)
        (after, none)) :
      MayReduceNodes b cancels nodes fields (materialize b after (b.partition nodes))

/-- The results that a reduction by a plan can have. -/
def MayReduce (b : Batch) (cancels : Bool) (plan : Plan) (result : Except ReduceError Batch) :
    Prop :=
  match plan.compile with
  | .error e => result = .error (.compile e.message)
  | .ok nodes => b.MayReduceNodes cancels nodes (Node.leafColumns nodes) result

end Batch

end Columnar
