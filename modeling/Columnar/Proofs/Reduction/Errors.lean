import Columnar.Proofs.Batch.Representation
import Columnar.Proofs.Node.Errors
import Columnar.Proofs.Reduction.Join
import Columnar.Proofs.Reduction.Plan

/-!
# The errors of a reduction

A reduction by a plan fails for one of three reasons (`Batch.MayFail`): the plan does not compile, a
task is to read a column that the batch lacks, or values raise an error in a step or in a result.
Each of the other errors is ruled out by a fact of its own. The tasks read every column of the
compiled nodes, so no step misses a field; compiled nodes have no probes, so no task is given up;
and a reachable batch has the last row and the row of the result the number of values that are
looked for. None of this depends on the schedule or on whether failures cancel.
-/

namespace Columnar

open EvalError (OfValues)

inductive Batch.MayFail (b : Batch) (plan : Plan) : ReduceError → Prop where
  | compile {failure : CompileError} (h : plan.compile = .error failure) :
      MayFail b plan (.compile failure.message)
  | unknownColumn {nodes : List Node} {name : String} (h : plan.compile = .ok nodes)
      (hname : name ∈ Node.leafColumns nodes) (hmissing : b.position? name = none) :
      MayFail b plan (.unknownColumn name)
  | eval {nodes : List Node} {e : EvalError} (h : plan.compile = .ok nodes) (he : OfValues e) :
      MayFail b plan (.eval e)

/-- A task that reads the columns of its node fails for want of a column or for values. -/
theorem Node.Unprobed.foldBatch_failure {b : Batch} {fields : List String} {n : Node}
    {e : ReduceError} (hn : n.Unprobed) (hsub : n.columnNames ⊆ fields)
    (h : (n.foldBatch b fields).2 = some e) :
    (∃ name ∈ fields, b.position? name = none ∧ e = .unknownColumn name) ∨
      ∃ d, OfValues d ∧ e = .eval d := by
  by_cases hfields : b.HasColumns fields
  · rw [foldBatch_of_hasColumns hfields] at h
    obtain ⟨failure, hfailure, rfl⟩ := Option.map_eq_some_iff.1 h
    have hrows : ∀ row ∈ b.sequence.toList.map (b.projectedRow fields),
        ∀ name ∈ n.columnNames, row.get? name ≠ none := by
      refine List.forall_mem_map.2 fun physical _ name hname => ?_
      rw [Batch.get?_projectedRow, if_pos (hsub hname)]
      exact Option.some_ne_none _
    obtain ⟨d, rfl, hd⟩ := hn.feed_fault hrows hfailure
    exact .inr ⟨d, hd, rfl⟩
  · obtain ⟨name, hfirst⟩ := Batch.exists_first_unknown hfields
    rw [foldBatch_of_unknown hfirst] at h
    exact .inl ⟨name, hfirst.mem, hfirst.holds, (Option.some.inj h).symm⟩

namespace Batch

variable {b : Batch} {cancels : Bool} {plan : Plan} {nodes : List Node}

theorem mayReduce_iff_of_compile_error {failure : CompileError}
    (h : plan.compile = .error failure) {result : Except ReduceError Batch} :
    b.MayReduce cancels plan result ↔ result = .error (.compile failure.message) := by
  unfold MayReduce
  rw [h]

/-- With nodes from a plan, the tasks and the results fail as they may. -/
theorem MayReduceNodes.mayFail (hb : b.WellFormed) (hcompile : plan.compile = .ok nodes)
    {e : ReduceError}
    (h : b.MayReduceNodes cancels nodes (Node.leafColumns nodes) (.error e)) :
    b.MayFail plan e := by
  generalize hresult : Except.error e = result at h
  cases h with
  | empty => cases hresult
  | failed _ hend =>
    cases hresult
    obtain ⟨i, n, hn, -, hfails⟩ := hend.exists_failsAt rfl
    have hmem := List.mem_of_getElem? hn
    rcases (Plan.unprobed_of_mem_compile hcompile hmem).foldBatch_failure
      (Node.columnNames_subset_sortNames_leafColumns hmem) hfails with
      ⟨name, hname, hmissing, rfl⟩ | ⟨d, hd, rfl⟩
    · exact .unknownColumn hcompile (Text.mem_sortNames.1 hname) hmissing
    · exact .eval hcompile hd
  | done hrows _ =>
    obtain ⟨n, -, d, hfinalize, rfl⟩ := hb.materialize_eq_error hrows hresult.symm
    exact .eval hcompile (Node.finalize_error hfinalize)

theorem MayReduce.mayFail (hb : b.WellFormed) {e : ReduceError}
    (h : b.MayReduce cancels plan (.error e)) : b.MayFail plan e := by
  cases hcompile : plan.compile with
  | error failure =>
    cases (mayReduce_iff_of_compile_error hcompile).1 h
    exact .compile hcompile
  | ok nodes =>
    unfold MayReduce at h
    rw [hcompile] at h
    exact h.mayFail hb hcompile

/-- A reduction of a reachable batch has a result, whether failures cancel or not. If it is an
error, the plan does not compile, or the batch lacks one of the plan's leaf columns, or values of a
wrong type, an overflow or a division by zero were met. If the plan does not compile, the result is
the error of compilation and no other. -/
theorem mayFail_of_mayReduce (hb : b.Reachable) (plan : Plan) :
    (∀ e, b.reduce plan = .error e → b.MayFail plan e) ∧
    ∀ cancels,
      (∃ result, b.MayReduce cancels plan result) ∧
      (∀ e, b.MayReduce cancels plan (.error e) → b.MayFail plan e) ∧
      ∀ failure, plan.compile = .error failure → ∀ result,
        b.MayReduce cancels plan result ↔ result = .error (.compile failure.message) := by
  refine ⟨fun e h => ?_, fun cancels => ⟨b.exists_mayReduce cancels plan, fun e h => ?_, ?_⟩⟩
  · exact MayReduce.mayFail hb.wellFormed (mayReduce_iff_of_not_cancels.2 h.symm)
  · exact h.mayFail hb.wellFormed
  · exact fun failure hfailure result => mayReduce_iff_of_compile_error hfailure

/-- Each kind of error on two rows in reverse order: of a missing column beside one that is there,
of a sum without a result, and of an aggregate of an aggregate. -/
theorem mayFail_of_mayReduce_reversedRows :
    reversedRows.Reachable ∧
      (reversedRows.reduce ⟨[.aggregate .sum (.column "x"), .column "y"]⟩ =
          .error (.unknownColumn "y") ∧
        reversedRows.MayFail ⟨[.aggregate .sum (.column "x"), .column "y"]⟩
          (.unknownColumn "y")) ∧
      (reversedRows.reduce ⟨[.aggregate .sum (.literal (.int64 Int64.maxValue))]⟩ =
          .error (.eval (.overflow "SUM 9223372036854775807 + 9223372036854775807")) ∧
        ∃ e, OfValues e ∧
          reversedRows.reduce ⟨[.aggregate .sum (.literal (.int64 Int64.maxValue))]⟩ =
            .error (.eval e)) ∧
      ∀ result, reversedRows.MayReduce true
          ⟨[.aggregate .max (.named (.aggregate .sum (.column "x")) "a")]⟩ result ↔
        result = .error (.compile "aggregate MAX cannot contain another aggregate") := by
  have hmissing : reversedRows.reduce ⟨[.aggregate .sum (.column "x"), .column "y"]⟩ =
      .error (.unknownColumn "y") := by rfl
  have hoverflow : reversedRows.reduce ⟨[.aggregate .sum (.literal (.int64 Int64.maxValue))]⟩ =
      .error (.eval (.overflow "SUM 9223372036854775807 + 9223372036854775807")) := by
    decide +kernel
  have hnested : (Plan.mk [.aggregate .max (.named (.aggregate .sum (.column "x")) "a")]).compile =
      .error (.nestedAggregate .max) := by rfl
  refine ⟨reversedRows_reachable,
    ⟨hmissing, (mayFail_of_mayReduce reversedRows_reachable _).1 _ hmissing⟩, ⟨hoverflow, ?_⟩,
    ((mayFail_of_mayReduce reversedRows_reachable _).2 true).2.2 _ hnested⟩
  cases (mayFail_of_mayReduce reversedRows_reachable _).1 _ hoverflow with
  | eval _ he => exact ⟨_, he, hoverflow⟩

end Batch

end Columnar
