import Columnar.Batch.Reachable
import Columnar.Proofs.Reduction.Interleaving
import Columnar.Proofs.Reduction.Outcome

/-!
# What an evaluation ends with

When all tasks of an evaluation are done, its outcome is read off the nodes and the collector. If
nothing stopped a task, both are what the tasks come to alone, whatever the schedule was. Where
failures cancel, tasks may have been stopped, but then a failure is recorded: no failure means that
no task was stopped, and a failure that is reported is one that a node has alone. A reduction under
a schedule therefore differs from one without in no more than the failure it reports, and not even
in that if failures do not cancel.
-/

namespace Columnar

/-- Folded alone over all rows, the computed expression at a position fails. -/
def FailsAt (b : Batch) (fields : List String) (nodes : List Node) (slots : List Slot) (i : Nat)
    (e : ReduceError) : Prop :=
  ∃ n, nodes[i]? = some n ∧ slots[i]? = some .computed ∧ (n.foldBatch b fields).2 = some e

variable {w : Workload} {b : Batch} {fields : List String} {nodes : List Node} {slots : List Slot}

theorem failsAt_iff {i : Nat} {e : ReduceError} :
    FailsAt w.batch w.fields nodes slots i e ↔
      ∃ a, (w.alone nodes slots)[i]? = some a ∧ a.2 = some e := by
  constructor
  · intro hfails
    obtain ⟨n, hn, hslot, he⟩ := hfails
    exact ⟨_, Workload.getElem?_alone_eq_some_iff.2 ⟨n, .computed, hn, hslot, rfl⟩, he⟩
  · intro halone
    obtain ⟨a, ha, he⟩ := halone
    obtain ⟨n, slot, hn, hslot, rfl⟩ := Workload.getElem?_alone_eq_some_iff.1 ha
    cases slot with
    | passThrough position => cases he
    | computed => exact ⟨n, hn, hslot, he⟩

theorem not_failsAt_iff {i : Nat} :
    (∀ e, ¬ FailsAt w.batch w.fields nodes slots i e) ↔
      ∀ a, (w.alone nodes slots)[i]? = some a → a.2 = none := by
  simp only [failsAt_iff, not_exists, not_and, Option.eq_none_iff_forall_ne_some]
  exact ⟨fun h a ha e => h e a ha, fun h e a ha => h a ha e⟩

/-! ### Without a schedule -/

theorem evaluate_eq_alone (w : Workload) (nodes : List Node) (slots : List Slot) :
    evaluate w.batch w.fields nodes slots =
      ((w.alone nodes slots).map Prod.fst, (w.alone nodes slots).findSome? Prod.snd) := by
  have hzip : (nodes.zip slots).map (fun task => task.1.runTask w.batch w.fields task.2) =
      w.alone nodes slots := List.map_zip_eq_zipWith
  unfold evaluate
  dsimp only
  rw [Failures.takeFirst_ofTasks, List.findSome?_map, hzip]
  rfl

theorem length_evaluate_fst (w : Workload) (hslots : slots.length = nodes.length) :
    (evaluate w.batch w.fields nodes slots).1.length = nodes.length := by
  rw [evaluate_eq_alone, List.length_map, Workload.alone, List.length_zipWith, hslots, Nat.min_self]

theorem getElem?_evaluate_fst (w : Workload) {i : Nat} {n : Node} {slot : Slot}
    (hn : nodes[i]? = some n) (hslot : slots[i]? = some slot) :
    (evaluate w.batch w.fields nodes slots).1[i]? = some (n.runTask w.batch w.fields slot).1 := by
  have halone : (w.alone nodes slots)[i]? = some (n.runTask w.batch w.fields slot) :=
    Workload.getElem?_alone_eq_some_iff.2 ⟨n, slot, hn, hslot, rfl⟩
  rw [evaluate_eq_alone, List.getElem?_map, halone, Option.map_some]

theorem evaluate_snd_eq_some_iff {e : ReduceError} :
    (evaluate w.batch w.fields nodes slots).2 = some e ↔
      ∃ i, FailsAt w.batch w.fields nodes slots i e ∧
        ∀ j < i, ∀ d, ¬ FailsAt w.batch w.fields nodes slots j d := by
  rw [evaluate_eq_alone, findSome?_eq_some_iff_getElem?]
  constructor
  · intro hfirst
    obtain ⟨i, a, ha, he, hbefore⟩ := hfirst
    exact ⟨i, failsAt_iff.2 ⟨a, ha, he⟩, fun j hj => not_failsAt_iff.2 (hbefore j hj)⟩
  · intro hfirst
    obtain ⟨i, hfails, hbefore⟩ := hfirst
    obtain ⟨a, ha, he⟩ := failsAt_iff.1 hfails
    exact ⟨i, a, ha, he, fun j hj => not_failsAt_iff.1 (hbefore j hj)⟩

theorem evaluate_snd_eq_none_iff :
    (evaluate w.batch w.fields nodes slots).2 = none ↔
      ∀ i e, ¬ FailsAt w.batch w.fields nodes slots i e := by
  rw [evaluate_eq_alone]
  simp only [not_failsAt_iff, List.findSome?_eq_none_iff, List.mem_iff_getElem?]
  exact ⟨fun h i a ha => h a ⟨i, ha⟩, fun h a ⟨i, ha⟩ => h i a ha⟩

/-! ### After a schedule -/

namespace Run

variable {run : Run} {alone : List (Node × Option ReduceError)}

/-- A recorded failure is one that the task has alone. -/
theorem Sound.exists_alone_of_get? (hsound : run.Sound w alone) {i : Nat} {e : ReduceError}
    (he : run.failures.get? i = some e) : ∃ a, alone[i]? = some a ∧ a.2 = some e := by
  by_cases hi : i < alone.length
  · have ht : i < run.tasks.length := by
      rw [hsound.length_tasks]
      exact hi
    have hstands := hsound.stands i run.tasks[i] alone[i] (List.getElem?_eq_getElem ht)
      (List.getElem?_eq_getElem hi)
    exact ⟨alone[i], List.getElem?_eq_getElem hi, hstands.recorded_eq he⟩
  · rw [hsound.get?_beyond i (by omega)] at he
    cases he

/-- What a run reports was recorded at the lowest position with a failure. -/
theorem Sound.outcome_snd_eq_some_iff (hsound : run.Sound w alone) {e : ReduceError} :
    run.outcome.2 = some e ↔
      ∃ i, run.failures.get? i = some e ∧ ∀ j < i, run.failures.get? j = none := by
  change run.failures.takeFirst.1.map Prod.snd = some e ↔ _
  rw [Option.map_eq_some_iff]
  constructor
  · intro htaken
    obtain ⟨⟨i, failure⟩, htaken, rfl⟩ := htaken
    exact ⟨i, (Failures.takeFirst_eq_some_iff hsound.ascending).1 htaken⟩
  · intro hlowest
    obtain ⟨i, hlowest⟩ := hlowest
    exact ⟨(i, e), (Failures.takeFirst_eq_some_iff hsound.ascending).2 hlowest, rfl⟩

theorem outcome_snd_eq_none_iff : run.outcome.2 = none ↔ ∀ i, run.failures.get? i = none := by
  change run.failures.takeFirst.1.map Prod.snd = none ↔ _
  rw [Option.map_eq_none_iff, Failures.takeFirst_eq_none_iff]

theorem Sound.of_finished (hsound : run.Sound w alone) (hfinished : run.Finished)
    (hflag : run.flag = false) {i : Nat} {t : Task} {a : Node × Option ReduceError}
    (ht : run.tasks[i]? = some t) (ha : alone[i]? = some a) :
    t.node = a.1 ∧ run.failures.get? i = a.2 := by
  rcases (hsound.stands i t a ht ha).of_done (hfinished t (List.mem_of_getElem? ht)) with
    hended | ⟨hset, -⟩
  · exact hended
  · rw [hflag] at hset
    cases hset

/-- A run without a stop is every task alone. -/
theorem Sound.outcome_of_finished (hsound : run.Sound w alone) (hfinished : run.Finished)
    (hflag : run.flag = false) :
    run.outcome = (alone.map Prod.fst, alone.findSome? Prod.snd) := by
  refine Prod.ext ?_ (Option.ext fun e => ?_)
  · refine List.ext_getElem (by simp [outcome, hsound.length_tasks]) fun i hi hi' => ?_
    rw [List.length_map] at hi'
    have ht : i < run.tasks.length := by
      rw [hsound.length_tasks]
      exact hi'
    have hended := hsound.of_finished hfinished hflag (List.getElem?_eq_getElem ht)
      (List.getElem?_eq_getElem hi')
    rw [List.getElem_map]
    exact (List.getElem_map ..).trans hended.1
  · have hget : ∀ i, run.failures.get? i = alone[i]?.bind Prod.snd := by
      intro i
      by_cases hi : i < alone.length
      · have ht : i < run.tasks.length := by
          rw [hsound.length_tasks]
          exact hi
        rw [List.getElem?_eq_getElem hi]
        exact (hsound.of_finished hfinished hflag (List.getElem?_eq_getElem ht)
          (List.getElem?_eq_getElem hi)).2
      · rw [hsound.get?_beyond i (by omega), List.getElem?_eq_none (by omega)]
        rfl
    rw [hsound.outcome_snd_eq_some_iff, findSome?_eq_some_iff_getElem?]
    simp only [hget, Option.bind_eq_some_iff, Option.bind_eq_none_iff]
    constructor
    · intro hlowest
      obtain ⟨i, ⟨a, ha, he⟩, hbefore⟩ := hlowest
      exact ⟨i, a, ha, he, hbefore⟩
    · intro hlowest
      obtain ⟨i, a, ha, he, hbefore⟩ := hlowest
      exact ⟨i, ⟨a, ha, he⟩, hbefore⟩

theorem Sound.flag_of_outcome (hsound : run.Sound w alone) (hfinished : run.Finished)
    (hnone : run.outcome.2 = none) : run.flag = false := by
  refine Bool.eq_false_iff.2 fun hflag => ?_
  obtain ⟨i, ⟨e, he⟩ | ⟨t, e, ht, hphase⟩⟩ := hsound.failure_of_flag hflag
  · rw [outcome_snd_eq_none_iff.1 hnone i] at he
    cases he
  · rw [hfinished t (List.mem_of_getElem? ht)] at hphase
    cases hphase

end Run

/-! ### Possible outcomes -/

namespace Workload

theorem exists_finished (w : Workload) (nodes : List Node) (slots : List Slot) :
    ∃ schedule, ((Run.start nodes slots).follow w schedule).Finished := by
  refine ⟨(List.replicate (2 * w.batch.numRows + 3) (List.range nodes.length)).flatten,
    Run.finished_of_count w nodes slots fun i hi => ?_⟩
  rw [List.count_flatten, List.map_replicate, List.sum_replicate_nat]
  exact Nat.le_mul_of_pos_right _ (List.count_pos_iff.2 (List.mem_range.2 hi))

variable {outcome : List Node × Option ReduceError}

/-- Where failures do not cancel, all schedules have the outcome of the tasks alone. -/
theorem mayEnd_iff_of_not_cancels (hcancels : w.cancels = false) :
    w.MayEnd nodes slots outcome ↔ outcome = evaluate w.batch w.fields nodes slots := by
  have hend : ∀ schedule, ((Run.start nodes slots).follow w schedule).Finished →
      ((Run.start nodes slots).follow w schedule).outcome =
        evaluate w.batch w.fields nodes slots := by
    intro schedule hfinished
    have hsound := (Run.sound_start w nodes slots).follow schedule
    have hflag : ((Run.start nodes slots).follow w schedule).flag = false :=
      Bool.eq_false_iff.2 fun hset => by
        have hset := hsound.cancels_of_flag hset
        rw [hcancels] at hset
        cases hset
    rw [hsound.outcome_of_finished hfinished hflag, evaluate_eq_alone]
  constructor
  · intro hmay
    obtain ⟨schedule, hfinished, rfl⟩ := hmay
    exact hend schedule hfinished
  · intro houtcome
    obtain ⟨schedule, hfinished⟩ := w.exists_finished nodes slots
    exact ⟨schedule, hfinished, houtcome ▸ hend schedule hfinished⟩

theorem MayEnd.eq_evaluate (hend : w.MayEnd nodes slots outcome) (hnone : outcome.2 = none) :
    outcome = evaluate w.batch w.fields nodes slots := by
  obtain ⟨schedule, hfinished, rfl⟩ := hend
  have hsound := (Run.sound_start w nodes slots).follow schedule
  rw [hsound.outcome_of_finished hfinished (hsound.flag_of_outcome hfinished hnone),
    evaluate_eq_alone]

/-- A failure that is reported is one that a node has alone. -/
theorem MayEnd.exists_failsAt (hend : w.MayEnd nodes slots outcome) {e : ReduceError}
    (he : outcome.2 = some e) : ∃ i, FailsAt w.batch w.fields nodes slots i e := by
  obtain ⟨schedule, hfinished, rfl⟩ := hend
  have hsound := (Run.sound_start w nodes slots).follow schedule
  obtain ⟨i, hget, -⟩ := hsound.outcome_snd_eq_some_iff.1 he
  exact ⟨i, failsAt_iff.2 (hsound.exists_alone_of_get? hget)⟩

end Workload

/-! ### Reductions under a schedule -/

namespace Batch

variable {cancels : Bool} {result : Except ReduceError Batch}

theorem reduceNodes_of_empty (hrows : b.numRows = 0) :
    (b.reduceNodes nodes fields).2 = .ok (headerOnly nodes) := by
  unfold reduceNodes
  rw [if_pos hrows]

theorem reduceNodes_of_failure {after : List Node} {e : ReduceError} (hrows : b.numRows ≠ 0)
    (h : (after, some e) = evaluate b (Text.sortNames fields) nodes (b.partition nodes)) :
    (b.reduceNodes nodes fields).2 = .error e := by
  unfold reduceNodes
  rw [if_neg hrows]
  dsimp only
  rw [← h]

theorem reduceNodes_of_done {after : List Node} (hrows : b.numRows ≠ 0)
    (h : (after, none) = evaluate b (Text.sortNames fields) nodes (b.partition nodes)) :
    (b.reduceNodes nodes fields).2 = materialize b after (b.partition nodes) := by
  unfold reduceNodes
  rw [if_neg hrows]
  dsimp only
  rw [← h]

/-- Where failures do not cancel, a reduction has the result of its tasks run one by one. -/
theorem mayReduceNodes_iff_of_not_cancels :
    b.MayReduceNodes false nodes fields result ↔ result = (b.reduceNodes nodes fields).2 := by
  have hend : ∀ outcome,
      Workload.MayEnd ⟨b, Text.sortNames fields, false⟩ nodes (b.partition nodes) outcome ↔
        outcome = evaluate b (Text.sortNames fields) nodes (b.partition nodes) :=
    fun outcome => Workload.mayEnd_iff_of_not_cancels rfl
  constructor
  · intro hmay
    cases hmay with
    | empty hrows => exact (reduceNodes_of_empty hrows).symm
    | failed hrows hmay => exact (reduceNodes_of_failure hrows ((hend _).1 hmay)).symm
    | done hrows hmay => exact (reduceNodes_of_done hrows ((hend _).1 hmay)).symm
  · intro hresult
    rw [hresult]
    by_cases hrows : b.numRows = 0
    · rw [reduceNodes_of_empty hrows]
      exact .empty hrows
    · rcases hevaluate : evaluate b (Text.sortNames fields) nodes (b.partition nodes) with
        ⟨after, _ | e⟩
      · rw [reduceNodes_of_done hrows hevaluate.symm]
        exact .done hrows ((hend _).2 hevaluate.symm)
      · rw [reduceNodes_of_failure hrows hevaluate.symm]
        exact .failed hrows ((hend _).2 hevaluate.symm)

/-- A reduction that succeeds has this result, whether failures cancel or not. -/
theorem MayReduceNodes.eq_of_ok {out : Batch}
    (h : b.MayReduceNodes cancels nodes fields (.ok out)) :
    (b.reduceNodes nodes fields).2 = .ok out := by
  generalize hresult : Except.ok out = result at h
  cases h with
  | empty hrows => exact reduceNodes_of_empty hrows
  | failed => cases hresult
  | done hrows hmay => exact reduceNodes_of_done hrows (hmay.eq_evaluate rfl)

/-- So no schedule makes a batch that is not reached without one. -/
theorem Reachable.mayReduceNodes {out : Batch} (hb : b.Reachable)
    (h : b.MayReduceNodes cancels nodes fields (.ok out)) : out.Reachable :=
  hb.reduceNodes h.eq_of_ok

theorem mayReduce_iff_of_not_cancels {plan : Plan} :
    b.MayReduce false plan result ↔ result = b.reduce plan := by
  unfold MayReduce reduce
  cases plan.compile with
  | error e => rfl
  | ok nodes => exact mayReduceNodes_iff_of_not_cancels

theorem MayReduce.eq_of_ok {plan : Plan} {out : Batch} (h : b.MayReduce cancels plan (.ok out)) :
    b.reduce plan = .ok out := by
  unfold MayReduce at h
  unfold reduce
  cases hcompile : plan.compile with
  | error e =>
    rw [hcompile] at h
    cases h
  | ok nodes =>
    rw [hcompile] at h
    exact h.eq_of_ok

theorem exists_mayReduceNodes (b : Batch) (cancels : Bool) (nodes : List Node)
    (fields : List String) : ∃ result, b.MayReduceNodes cancels nodes fields result := by
  by_cases hrows : b.numRows = 0
  · exact ⟨_, .empty hrows⟩
  · obtain ⟨schedule, hfinished⟩ :=
      Workload.exists_finished ⟨b, Text.sortNames fields, cancels⟩ nodes (b.partition nodes)
    rcases houtcome : ((Run.start nodes (b.partition nodes)).follow
      ⟨b, Text.sortNames fields, cancels⟩ schedule).outcome with ⟨after, _ | e⟩
    · exact ⟨_, .done hrows ⟨schedule, hfinished, houtcome⟩⟩
    · exact ⟨_, .failed hrows ⟨schedule, hfinished, houtcome⟩⟩

theorem exists_mayReduce (b : Batch) (cancels : Bool) (plan : Plan) :
    ∃ result, b.MayReduce cancels plan result := by
  unfold MayReduce
  cases plan.compile with
  | error e => exact ⟨_, rfl⟩
  | ok nodes => exact b.exists_mayReduceNodes cancels nodes (Node.leafColumns nodes)

/-- Over rows, a reduction ends with the failure of a task, or as it does in sequence. -/
theorem MayReduceNodes.task_or_eq (h : b.MayReduceNodes cancels nodes fields result)
    (hrows : b.numRows ≠ 0) :
    (∃ n ∈ nodes, ∃ e, (n.task b (Text.sortNames fields)).2 = some e ∧ result = .error e) ∨
      (∀ n ∈ nodes, (n.task b (Text.sortNames fields)).2 = none) ∧
        result = (b.reduceNodes nodes fields).2 := by
  cases h with
  | empty hzero => exact absurd hzero hrows
  | @failed after e _ hend =>
    obtain ⟨i, n, hn, hslot, hfails⟩ := hend.exists_failsAt rfl
    refine .inl ⟨n, List.mem_of_getElem? hn, e, ?_, rfl⟩
    rw [partition, List.getElem?_map, hn, Option.map_some, Option.some.injEq] at hslot
    unfold Node.task
    rw [hslot]
    exact hfails
  | done _ hend =>
    have hevaluate := hend.eq_evaluate rfl
    have htasks := congrArg Prod.snd ((evaluate_partition b _ nodes).symm.trans hevaluate.symm)
    rw [List.findSome?_eq_none_iff] at htasks
    exact .inr ⟨htasks, (reduceNodes_of_done hrows hevaluate).symm⟩

/-- A reduction that succeeds in sequence has no other result under any schedule. -/
theorem MayReduceNodes.eq_of_reduceNodes {out : Batch}
    (h : b.MayReduceNodes cancels nodes fields result)
    (hout : (b.reduceNodes nodes fields).2 = .ok out) : result = .ok out := by
  cases h with
  | empty hrows => exact (reduceNodes_of_empty hrows).symm.trans hout
  | done hrows hend => exact (reduceNodes_of_done hrows (hend.eq_evaluate rfl)).symm.trans hout
  | failed hrows hend =>
    obtain ⟨i, hfails⟩ := hend.exists_failsAt rfl
    rcases hevaluate : evaluate b (Text.sortNames fields) nodes (b.partition nodes) with
      ⟨after, _ | d⟩
    · have hnone := congrArg Prod.snd hevaluate
      exact absurd hfails
        ((evaluate_snd_eq_none_iff (w := ⟨b, Text.sortNames fields, cancels⟩)).1 hnone i _)
    · cases (reduceNodes_of_failure hrows hevaluate.symm).symm.trans hout

theorem mayReduce_iff_of_ok {plan : Plan} {out : Batch} (hout : b.reduce plan = .ok out) :
    b.MayReduce cancels plan result ↔ result = .ok out := by
  have hunique : ∀ result, b.MayReduce cancels plan result → result = .ok out := by
    intro result h
    unfold MayReduce at h
    unfold reduce at hout
    cases hcompile : plan.compile with
    | error e =>
      rw [hcompile] at hout
      cases hout
    | ok nodes =>
      rw [hcompile] at h hout
      exact h.eq_of_reduceNodes hout
  refine ⟨hunique result, ?_⟩
  rintro rfl
  obtain ⟨result, h⟩ := b.exists_mayReduce cancels plan
  exact hunique result h ▸ h

end Batch

end Columnar
