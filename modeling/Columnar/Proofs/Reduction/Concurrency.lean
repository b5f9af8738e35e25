import Columnar.Proofs.Reduction.Join
import Mathlib.Data.Nat.Find

/-!
# Tasks side by side

However the steps of the tasks interleave, an evaluation whose failures do not cancel ends as if
every node had been folded alone and the failure of lowest position had been picked afterwards
(`outcome_follow_uncancelled`). Where failures cancel, the schedule decides which failure is seen
first and how far the other nodes get, but not whether there is one (`outcome_follow_cancelling`).
-/

namespace Columnar

variable {b : Batch} {fields : List String} {nodes : List Node} {slots : List Slot}

theorem FailsAt.unique {i : Nat} {d e : ReduceError} (hd : FailsAt b fields nodes slots i d)
    (he : FailsAt b fields nodes slots i e) : d = e := by
  obtain ⟨n, hn, -, hd⟩ := hd
  obtain ⟨m, hm, -, he⟩ := he
  cases hn.symm.trans hm
  exact Option.some.inj (hd.symm.trans he)

theorem FailsAt.exists_lowest {i : Nat} {e : ReduceError} (h : FailsAt b fields nodes slots i e) :
    ∃ lowest ≤ i, (∃ d, FailsAt b fields nodes slots lowest d) ∧
      ∀ j < lowest, ∀ d, ¬ FailsAt b fields nodes slots j d := by
  classical
  have hsome : ∃ j, ∃ d, FailsAt b fields nodes slots j d := ⟨i, e, h⟩
  refine ⟨Nat.find hsome, Nat.find_min' hsome ⟨e, h⟩, Nat.find_spec hsome, fun j hj d hd => ?_⟩
  exact Nat.find_min hsome hj ⟨d, hd⟩

theorem failsAt_iff_foldHistory (hb : b.Reachable) {i : Nat} {e : ReduceError} :
    FailsAt b fields nodes slots i e ↔
      ∃ n, nodes[i]? = some n ∧ slots[i]? = some .computed ∧
        (n.foldHistory b fields).2 = some e := by
  simp only [FailsAt, Node.foldBatch_eq_foldHistory hb.wellFormed.arrays_length]

namespace Run

variable {schedule : List Nat} {run : Run}

/-- Without cancellation a run in which every task gets steps enough ends. It then leaves every
computed node as it is after all rows were folded into it alone, up to its own failure, and every
other node untouched; and it reports the failure of the lowest position, if any node fails. This is
what the evaluation in sequence gives. In a batch that can be built the rows are the logical rows,
in their order. -/
theorem outcome_follow_uncancelled (hslots : slots.length = nodes.length)
    (hrun : run = (start nodes slots).follow ⟨b, fields, false⟩ schedule) :
    ((∀ i < nodes.length, 2 * b.numRows + 3 ≤ schedule.count i) → run.Finished) ∧
    (run.Finished →
      run.outcome = evaluate b fields nodes slots ∧
      run.outcome.1.length = nodes.length ∧
      (∀ (i : Nat) (n : Node), nodes[i]? = some n →
        (slots[i]? = some .computed → run.outcome.1[i]? = some (n.foldBatch b fields).1) ∧
        ∀ position, slots[i]? = some (.passThrough position) → run.outcome.1[i]? = some n) ∧
      (run.outcome.2 = none ↔ ∀ i e, ¬ FailsAt b fields nodes slots i e) ∧
      (∀ e, run.outcome.2 = some e ↔ ∃ i, FailsAt b fields nodes slots i e ∧
        ∀ j < i, ∀ d, ¬ FailsAt b fields nodes slots j d) ∧
      (b.Reachable →
        (∀ (i : Nat) (n : Node), nodes[i]? = some n → slots[i]? = some .computed →
          run.outcome.1[i]? = some (n.foldHistory b fields).1) ∧
        ∀ i e, FailsAt b fields nodes slots i e ↔
          ∃ n, nodes[i]? = some n ∧ slots[i]? = some .computed ∧
            (n.foldHistory b fields).2 = some e)) := by
  let w : Workload := ⟨b, fields, false⟩
  refine ⟨fun hcount => hrun ▸ finished_of_count w nodes slots hcount, fun hfinished => ?_⟩
  have houtcome : run.outcome = evaluate b fields nodes slots :=
    (Workload.mayEnd_iff_of_not_cancels (w := w) rfl).1
      ⟨schedule, hrun ▸ hfinished, congrArg outcome hrun.symm⟩
  have hcomputed : ∀ (i : Nat) (n : Node), nodes[i]? = some n → slots[i]? = some .computed →
      run.outcome.1[i]? = some (n.foldBatch b fields).1 := by
    intro i n hn hslot
    rw [houtcome]
    exact getElem?_evaluate_fst w hn hslot
  refine ⟨houtcome, ?_, fun i n hn => ⟨hcomputed i n hn, fun position hslot => ?_⟩, ?_,
    fun e => ?_, fun hb => ⟨fun i n hn hslot => ?_, fun i e => failsAt_iff_foldHistory hb⟩⟩
  · rw [houtcome]
    exact length_evaluate_fst w hslots
  · rw [houtcome]
    exact getElem?_evaluate_fst w hn hslot
  · rw [houtcome]
    exact evaluate_snd_eq_none_iff (w := w)
  · rw [houtcome]
    exact evaluate_snd_eq_some_iff (w := w)
  · rw [hcomputed i n hn hslot, Node.foldBatch_eq_foldHistory hb.wellFormed.arrays_length]

def threeRows : Batch := ⟨[⟨"x", .int64⟩], [#[.int64 0, .int64 2, .int64 5]], #[2, 0, 1], 3⟩

theorem threeRows_reachable : threeRows.Reachable := by
  have hrows : Batch.ofRows [⟨"x", .int64⟩] [[.int64 0], [.int64 2], [.int64 5]] =
      .ok { threeRows with sequence := #[0, 1, 2] } := by rfl
  have hsequence : { threeRows with sequence := #[0, 1, 2] : Batch }.withSequence #[2, 0, 1] =
      .ok threeRows := by rfl
  exact .withSequence (.ofRows hrows) hsequence

def zeroProbe : Node := .probe "PROBE(x)" ["x"] fun values =>
  if values = [some (.int64 0)] then some (.panic (some "boom")) else none

/-- A ratio and a count that have seen rows before, with a column and a probe between them. The
ratio and the probe fail on the second of the logical rows, which is the first in storage. -/
def usedNodes : List Node :=
  [.binary (.constant (.int64 10)) (.arithmetic .div) (.column "x" (.int64 7)) (some (.int64 1)),
    .column "x" (.int64 7), zeroProbe, .aggregateRows .count (.count 4)]

def usedSlots : List Slot := [.computed, .passThrough 0, .computed, .computed]

/-- Nine rounds in each of which the probe takes the first two steps. -/
def probeFirst : List Nat := (List.replicate 9 [2, 2, 3, 0, 1]).flatten

theorem failsAt_usedNodes :
    FailsAt threeRows ["x"] usedNodes usedSlots 0 (.eval .divisionByZero) ∧
      FailsAt threeRows ["x"] usedNodes usedSlots 2 (.threadPanic "boom") :=
  ⟨⟨_, rfl, rfl, by rfl⟩, ⟨_, rfl, rfl, by rfl⟩⟩

/-- The probe fails first, but the ratio stands before it, and keeps its value on the row before;
the count sees all rows. -/
theorem outcome_follow_uncancelled_probeFirst :
    usedSlots.length = usedNodes.length ∧ threeRows.Reachable ∧
      (∀ i < usedNodes.length, 2 * threeRows.numRows + 3 ≤ probeFirst.count i) ∧
      ∃ run, run = (start usedNodes usedSlots).follow ⟨threeRows, ["x"], false⟩ probeFirst ∧
        run.Finished ∧ run.outcome = evaluate threeRows ["x"] usedNodes usedSlots ∧
        run.outcome.1[0]? = some (.binary (.constant (.int64 10)) (.arithmetic .div)
          (.column "x" (.int64 0)) (some (.int64 2))) ∧
        run.outcome.1[1]? = some (.column "x" (.int64 7)) ∧
        run.outcome.1[3]? = some (.aggregateRows .count (.count 7)) ∧
        run.outcome.2 = some (.eval .divisionByZero) := by
  have hslots : usedSlots.length = usedNodes.length := rfl
  have hcount : ∀ i < usedNodes.length, 2 * threeRows.numRows + 3 ≤ probeFirst.count i := by decide
  obtain ⟨hend, hall⟩ :=
    @outcome_follow_uncancelled threeRows ["x"] usedNodes usedSlots probeFirst _ hslots rfl
  obtain ⟨houtcome, -, hnodes, -, hfailure, hlogical⟩ := hall (hend hcount)
  refine ⟨hslots, threeRows_reachable, hcount, _, rfl, hend hcount, houtcome,
    (hlogical threeRows_reachable).1 0 _ rfl rfl, (hnodes 1 _ rfl).2 0 rfl,
    (hnodes 3 _ rfl).1 rfl, (hfailure _).2 ⟨0, failsAt_usedNodes.1, fun j hj => ?_⟩⟩
  exact absurd hj (Nat.not_lt_zero j)

/-- Where failures cancel, a run still reports a failure exactly if some node fails alone. What it
reports is a failure that a node has alone, though perhaps not the one of lowest position. It is the
one reported without cancellation if the nodes that fail have one failure between them; and if none
fails, all nodes end as they do without cancellation. Alone, the nodes of a batch that can be built
see the logical rows in their order. -/
theorem outcome_follow_cancelling
    (hrun : run = (start nodes slots).follow ⟨b, fields, true⟩ schedule) :
    ((∀ i < nodes.length, 2 * b.numRows + 3 ≤ schedule.count i) → run.Finished) ∧
    (run.Finished →
      ((∃ e, run.outcome.2 = some e) ↔ ∃ i e, FailsAt b fields nodes slots i e) ∧
      (∀ e, run.outcome.2 = some e → ∃ i, FailsAt b fields nodes slots i e ∧
        ∃ lowest ≤ i, (∃ d, FailsAt b fields nodes slots lowest d) ∧
          ∀ j < lowest, ∀ d, ¬ FailsAt b fields nodes slots j d) ∧
      ∀ off, Workload.MayEnd ⟨b, fields, false⟩ nodes slots off →
        ((∃! i, ∃ e, FailsAt b fields nodes slots i e) ∨
          (∀ i j d e, FailsAt b fields nodes slots i d → FailsAt b fields nodes slots j e → d = e) →
            run.outcome.2 = off.2) ∧
        (run.outcome.2 = none → run.outcome = off)) ∧
    (b.Reachable → ∀ i e, FailsAt b fields nodes slots i e ↔
      ∃ n, nodes[i]? = some n ∧ slots[i]? = some .computed ∧
        (n.foldHistory b fields).2 = some e) := by
  let w : Workload := ⟨b, fields, true⟩
  refine ⟨fun hcount => hrun ▸ finished_of_count w nodes slots hcount, fun hfinished => ?_,
    fun hb i e => failsAt_iff_foldHistory hb⟩
  have hmay : w.MayEnd nodes slots run.outcome :=
    ⟨schedule, hrun ▸ hfinished, congrArg outcome hrun.symm⟩
  have hreported : ∀ e, run.outcome.2 = some e → ∃ i, FailsAt b fields nodes slots i e :=
    fun e he => hmay.exists_failsAt he
  have hnone : run.outcome.2 = none → ∀ i e, ¬ FailsAt b fields nodes slots i e := by
    intro hnone
    rw [hmay.eq_evaluate hnone] at hnone
    exact (evaluate_snd_eq_none_iff (w := w)).1 hnone
  refine ⟨⟨?_, ?_⟩, ?_, ?_⟩
  · intro hsome
    obtain ⟨e, he⟩ := hsome
    obtain ⟨i, hfails⟩ := hreported e he
    exact ⟨i, e, hfails⟩
  · intro hfails
    obtain ⟨i, e, hfails⟩ := hfails
    exact Option.ne_none_iff_exists'.1 fun hnothing => hnone hnothing i e hfails
  · intro e he
    obtain ⟨i, hfails⟩ := hreported e he
    exact ⟨i, hfails, hfails.exists_lowest⟩
  · intro off hoff
    rw [(Workload.mayEnd_iff_of_not_cancels rfl).1 hoff]
    refine ⟨fun hone => ?_, hmay.eq_evaluate⟩
    have hsame : ∀ i j d e, FailsAt b fields nodes slots i d →
        FailsAt b fields nodes slots j e → d = e := by
      rcases hone with ⟨k, -, hunique⟩ | hsame
      · intro i j d e hd he
        obtain rfl := (hunique i ⟨d, hd⟩).trans (hunique j ⟨e, he⟩).symm
        exact hd.unique he
      · exact hsame
    cases hcancelled : run.outcome.2 with
    | none => exact (evaluate_snd_eq_none_iff (w := w)).2 (hnone hcancelled) |>.symm
    | some e =>
      obtain ⟨i, hi⟩ := hreported e hcancelled
      cases hevaluated : (evaluate b fields nodes slots).2 with
      | none => exact absurd hi ((evaluate_snd_eq_none_iff (w := w)).1 hevaluated i e)
      | some d =>
        obtain ⟨j, hj, -⟩ := (evaluate_snd_eq_some_iff (w := w)).1 hevaluated
        rw [hsame i j e d hi hj]

def countAndProbe : List Node := [.ofAggregateRows .count, .fault none]

/-- With the probe ahead, cancellation reports its failure on the second logical row in place of the
ratio's, which is stopped after the first. Where only the probe fails the report is the same either
way, and without it so is the count. -/
theorem outcome_follow_cancelling_probeFirst :
    (∃ run, run = (start usedNodes usedSlots).follow ⟨threeRows, ["x"], true⟩ probeFirst ∧
      run.Finished ∧ run.outcome.2 = some (.threadPanic "boom") ∧
      run.outcome.1[0]? = some (.binary (.constant (.int64 10)) (.arithmetic .div)
        (.column "x" (.int64 5)) (some (.int64 2))) ∧
      (∃ i, FailsAt threeRows ["x"] usedNodes usedSlots i (.threadPanic "boom") ∧
        ∃ lowest ≤ i, (∃ d, FailsAt threeRows ["x"] usedNodes usedSlots lowest d) ∧
          ∀ j < lowest, ∀ d, ¬ FailsAt threeRows ["x"] usedNodes usedSlots j d) ∧
      threeRows.Reachable ∧
        (zeroProbe.foldHistory threeRows ["x"]).2 = some (.threadPanic "boom")) ∧
    (∃ run off, run = (start countAndProbe [.computed, .computed]).follow
        ⟨threeRows, [], true⟩ probeFirst ∧ run.Finished ∧
      Workload.MayEnd ⟨threeRows, [], false⟩ countAndProbe [.computed, .computed] off ∧
      (∃! i, ∃ e, FailsAt threeRows [] countAndProbe [.computed, .computed] i e) ∧
      run.outcome.2 = off.2) ∧
    ∃ run off, run = (start [.ofAggregateRows .count] [.computed]).follow
        ⟨threeRows, [], true⟩ probeFirst ∧ run.Finished ∧
      Workload.MayEnd ⟨threeRows, [], false⟩ [.ofAggregateRows .count] [.computed] off ∧
      run.outcome.2 = none ∧ run.outcome = off := by
  refine ⟨?_, ?_, ?_⟩
  · have hcount : ∀ i < usedNodes.length, 2 * threeRows.numRows + 3 ≤ probeFirst.count i := by
      decide
    obtain ⟨hend, hall, hlogical⟩ :=
      @outcome_follow_cancelling threeRows ["x"] usedNodes usedSlots probeFirst _ rfl
    have hreported : ((start usedNodes usedSlots).follow ⟨threeRows, ["x"], true⟩
        probeFirst).outcome.2 = some (.threadPanic "boom") := by rfl
    obtain ⟨n, hn, -, hprobe⟩ := (hlogical threeRows_reachable 2 _).1 failsAt_usedNodes.2
    obtain rfl : zeroProbe = n := Option.some.inj hn
    exact ⟨_, rfl, hend hcount, hreported, by rfl, (hall (hend hcount)).2.1 _ hreported,
      threeRows_reachable, hprobe⟩
  · have hcount : ∀ i < countAndProbe.length,
        2 * threeRows.numRows + 3 ≤ probeFirst.count i := by decide
    have hfinished := finished_of_count ⟨threeRows, [], false⟩ countAndProbe
      [.computed, .computed] hcount
    have hone : ∃! i, ∃ e, FailsAt threeRows [] countAndProbe [.computed, .computed] i e := by
      refine ⟨1, ⟨.threadPanic "unknown panic", _, rfl, rfl, by rfl⟩, fun i hi => ?_⟩
      obtain ⟨e, n, hn, -, he⟩ := hi
      match i with
      | 0 =>
        cases hn
        have hnone : ((Node.ofAggregateRows .count).foldBatch threeRows []).2 = none := by rfl
        cases hnone.symm.trans he
      | 1 => rfl
    obtain ⟨hend, hall, -⟩ :=
      @outcome_follow_cancelling threeRows [] countAndProbe [.computed, .computed] probeFirst _ rfl
    exact ⟨_, _, rfl, hend hcount, ⟨_, hfinished, rfl⟩, hone,
      ((hall (hend hcount)).2.2 _ ⟨_, hfinished, rfl⟩).1 (.inl hone)⟩
  · have hcount : ∀ i < [Node.ofAggregateRows .count].length,
        2 * threeRows.numRows + 3 ≤ probeFirst.count i := by decide
    have hfinished := finished_of_count ⟨threeRows, [], false⟩ [.ofAggregateRows .count]
      [.computed] hcount
    obtain ⟨hend, hall, -⟩ := @outcome_follow_cancelling threeRows [] [.ofAggregateRows .count]
      [.computed] probeFirst _ rfl
    have hnone : ((start [.ofAggregateRows .count] [.computed]).follow ⟨threeRows, [], true⟩
        probeFirst).outcome.2 = none := by rfl
    exact ⟨_, _, rfl, hend hcount, ⟨_, hfinished, rfl⟩, hnone,
      ((hall (hend hcount)).2.2 _ ⟨_, hfinished, rfl⟩).2 hnone⟩

end Run

end Columnar
