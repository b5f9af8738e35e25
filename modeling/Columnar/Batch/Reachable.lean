import Columnar.RecordBatch
import Columnar.Reduction.Basic
import Mathlib.Data.List.Induction

/-!
# Reachable batches

The batches that the operations of the library build, from columns and values in any order of calls.
Writing a row works on the batch itself, so what a write that fails leaves behind is reachable too.
The other operations are given a batch to read or a copy of it: one that fails builds nothing, and
in a history of calls the batch at hand stays.
-/

namespace Columnar.Batch

inductive Reachable : Batch → Prop where
  | new (columns : List Column) : Reachable (new columns)
  | ofColumns {b : Batch} {columns : List Column} {arrays : List (Array Value)}
      (h : ofColumns columns arrays = .ok b) : Reachable b
  | ofRows {b : Batch} {columns : List Column} {rows : List (List Value)}
      (h : ofRows columns rows = .ok b) : Reachable b
  | ofRecordBatch {b : Batch} {record : RecordBatch} (h : ofRecordBatch record = .ok b) :
      Reachable b
  | writeRow {b : Batch} (row : List Value) (hb : Reachable b) : Reachable (b.writeRow row).1
  | withSequence {b after : Batch} {sequence : Array Nat} (hb : Reachable b)
      (h : b.withSequence sequence = .ok after) : Reachable after
  | reduceNodes {b after : Batch} {nodes : List Node} {fields : List String} (hb : Reachable b)
      (h : (b.reduceNodes nodes fields).2 = .ok after) : Reachable after

theorem Reachable.reduce {b after : Batch} {plan : Plan} (hb : b.Reachable)
    (h : b.reduce plan = .ok after) : after.Reachable := by
  unfold Batch.reduce at h
  split at h
  · exact absurd h (by simp)
  · exact hb.reduceNodes h

/-! ### Calls -/

/-- A call that is to build a batch, from its arguments alone or from the batch at hand. -/
inductive Call where
  | new (columns : List Column)
  | ofColumns (columns : List Column) (arrays : List (Array Value))
  | ofRows (columns : List Column) (rows : List (List Value))
  | ofRecordBatch (record : RecordBatch)
  | writeRow (row : List Value)
  | withSequence (sequence : Array Nat)
  | reduceNodes (nodes : List Node) (fields : List String)
  | reduce (plan : Plan)

/-- What a call builds, or the batch it was made on and why it builds nothing. -/
def orKept (b : Batch) : Except ReduceError Batch → Batch × Option ReduceError
  | .ok built => (built, none)
  | .error e => (b, some e)

/-- The batch at hand after a call, and why the call failed, if it did. -/
def Call.run (b : Batch) : Call → Batch × Option ReduceError
  | new columns => (Batch.new columns, none)
  | ofColumns columns arrays => b.orKept (Batch.ofColumns columns arrays)
  | ofRows columns rows => b.orKept (Batch.ofRows columns rows)
  | ofRecordBatch record => b.orKept (Batch.ofRecordBatch record)
  | writeRow row => b.writeRow row
  | withSequence sequence => b.orKept (b.withSequence sequence)
  | reduceNodes nodes fields => b.orKept (b.reduceNodes nodes fields).2
  | reduce plan => b.orKept (b.reduce plan)

/-- The batch at hand after a history of calls that starts without columns. -/
def afterCalls (calls : List Call) : Batch := calls.foldl (fun b call => (call.run b).1) (new [])

theorem afterCalls_concat (calls : List Call) (call : Call) :
    afterCalls (calls ++ [call]) = (call.run (afterCalls calls)).1 := by
  unfold afterCalls
  rw [List.foldl_append]
  rfl

theorem Reachable.orKept {b : Batch} (hb : b.Reachable) {built : Except ReduceError Batch}
    (h : ∀ after, built = .ok after → after.Reachable) : (b.orKept built).1.Reachable := by
  cases built with
  | ok after => exact h after rfl
  | error e => exact hb

/-- A call, whether it succeeds or fails, leaves a reachable batch. -/
theorem Reachable.run {b : Batch} (hb : b.Reachable) (call : Call) :
    (call.run b).1.Reachable := by
  cases call with
  | new columns => exact .new columns
  | ofColumns => exact hb.orKept fun _ h => .ofColumns h
  | ofRows => exact hb.orKept fun _ h => .ofRows h
  | ofRecordBatch => exact hb.orKept fun _ h => .ofRecordBatch h
  | writeRow row => exact hb.writeRow row
  | withSequence => exact hb.orKept fun _ h => hb.withSequence h
  | reduceNodes => exact hb.orKept fun _ h => hb.reduceNodes h
  | reduce => exact hb.orKept fun _ h => hb.reduce h

theorem reachable_afterCalls (calls : List Call) : (afterCalls calls).Reachable := by
  induction calls using List.reverseRecOn with
  | nil => exact .new []
  | append_singleton calls call ih =>
    rw [afterCalls_concat]
    exact ih.run call

/-- The reachable batches are those that some history of calls leaves. -/
theorem reachable_iff_exists_calls {b : Batch} :
    b.Reachable ↔ ∃ calls, afterCalls calls = b := by
  have hrun : ∀ {b : Batch} (call : Call), (∃ calls, afterCalls calls = b) →
      ∃ calls, afterCalls calls = (call.run b).1 := by
    intro b call hb
    obtain ⟨calls, rfl⟩ := hb
    exact ⟨calls ++ [call], afterCalls_concat calls call⟩
  have hbuild : ∀ {b after : Batch} (call : Call), (∃ calls, afterCalls calls = b) →
      call.run b = b.orKept (.ok after) → ∃ calls, afterCalls calls = after := by
    intro b after call hb h
    obtain ⟨calls, hcalls⟩ := hrun call hb
    exact ⟨calls, hcalls.trans (congrArg Prod.fst h)⟩
  have hstart : ∃ calls, afterCalls calls = new [] := ⟨[], rfl⟩
  constructor
  · intro hb
    induction hb with
    | new columns => exact hbuild (.new columns) hstart rfl
    | ofColumns h => exact hbuild (.ofColumns _ _) hstart (congrArg (orKept _) h)
    | ofRows h => exact hbuild (.ofRows _ _) hstart (congrArg (orKept _) h)
    | ofRecordBatch h => exact hbuild (.ofRecordBatch _) hstart (congrArg (orKept _) h)
    | writeRow row _ ih => exact hrun (.writeRow row) ih
    | withSequence _ h ih => exact hbuild (.withSequence _) ih (congrArg (orKept _) h)
    | reduceNodes _ h ih => exact hbuild (.reduceNodes _ _) ih (congrArg (orKept _) h)
  · intro hcalls
    obtain ⟨calls, rfl⟩ := hcalls
    exact reachable_afterCalls calls

end Columnar.Batch
