import Columnar.Proofs.Batch.History
import Columnar.Proofs.Failures
import Columnar.Reduction.Schedule

/-!
# What a schedule leaves alone

A task under way has a node and a failure ahead of it, those it comes to if nothing stops it, and
none of its steps changes them. So whatever the schedule, a task that is done has reached the state
of the same task run alone and has recorded its failure, or it was stopped by the flag
(`Task.Stands`, kept by every step as part of `Run.Sound`). The flag in turn is only set where
failures cancel, by a task that then records a failure. A run under way always ends: each task has a
bounded number of steps left, and every step of its own uses up one.
-/

namespace Columnar

/-- A node that is fed rows as by a task: what becomes of it, and the failure to report. -/
def Node.foldRows (rows : List Row) (n : Node) : Node × Option ReduceError :=
  ((feed rows n).1, (feed rows n).2.map Fault.report)

theorem Node.foldRows_cons (row : Row) (rows : List Row) (n : Node) :
    foldRows (row :: rows) n =
      match n.update row with
      | (after, some failure) => (after, some failure.report)
      | (after, none) => after.foldRows rows := by
  unfold foldRows
  rw [feed]
  rcases n.update row with ⟨after, _ | failure⟩ <;> rfl

/-! ### One task -/

namespace Task

variable {w : Workload} {flag : Bool} {alone : Node × Option ReduceError} {t : Task}
  {recorded : Option ReduceError}

/-- The node and the failure that a task comes to if nothing stops it. -/
def ahead (w : Workload) (t : Task) : Node × Option ReduceError :=
  match t.phase with
  | .opening => t.node.foldBatch w.batch w.fields
  | .testing rows => t.node.foldRows rows
  | .feeding row rows => t.node.foldRows (row :: rows)
  | .flagging e | .recording e => (t.node, some e)
  | .done => (t.node, none)

/-- Where a task stands, and what is recorded at its position, if `alone` is what the task comes to
alone. -/
inductive Stands (w : Workload) (flag : Bool) (alone : Node × Option ReduceError) :
    Task → Option ReduceError → Prop
  | running {t : Task} (hphase : t.phase ≠ .done) (hahead : t.ahead w = alone) :
      Stands w flag alone t none
  | ended : Stands w flag alone ⟨alone.1, .done⟩ alone.2
  | stopped {n : Node} (hflag : flag = true) : Stands w flag alone ⟨n, .done⟩ none

theorem stands_start (w : Workload) (flag : Bool) (n : Node) (slot : Slot) :
    Stands w flag (n.runTask w.batch w.fields slot) (start n slot) none := by
  cases slot with
  | passThrough position => exact .ended
  | computed => exact .running (by simp [start]) rfl

theorem Stands.mono (h : Stands w flag alone t recorded) {later : Bool}
    (hlater : flag = true → later = true) : Stands w later alone t recorded := by
  cases h with
  | running hphase hahead => exact .running hphase hahead
  | ended => exact .ended
  | stopped hflag => exact .stopped (hlater hflag)

theorem Stands.advance (h : Stands w flag alone t recorded) :
    Stands w flag alone (t.advance w flag) (recorded.or t.recorded?) := by
  cases h with
  | ended =>
    change Stands w flag alone ⟨alone.1, .done⟩ (alone.2.or none)
    rw [Option.or_none]
    exact .ended
  | stopped hflag => exact .stopped hflag
  | running hphase hahead =>
    obtain ⟨n, phase⟩ := t
    subst hahead
    rw [Option.none_or]
    cases phase with
    | opening =>
      cases hcursor : w.batch.cursor w.fields with
      | error e =>
        have hstep : advance w flag ⟨n, .opening⟩ = ⟨n, .flagging e⟩ := by
          simp only [Task.advance, hcursor]
        rw [hstep]
        exact .running (by simp) (by simp only [ahead, Node.foldBatch, hcursor])
      | ok cursor =>
        have hstep : advance w flag ⟨n, .opening⟩ = ⟨n, .testing (cursor.rest.map cursor.row)⟩ := by
          simp only [Task.advance, hcursor]
        rw [hstep]
        exact .running (by simp)
          (by simp only [ahead, Node.foldBatch, hcursor, Node.foldRows])
    | testing rows =>
      cases rows with
      | nil => exact .ended
      | cons row rows =>
        cases flag with
        | true => exact .stopped rfl
        | false => exact .running (by simp [Task.advance]) rfl
    | feeding row rows =>
      have hahead := Node.foldRows_cons row rows n
      rcases hupdate : n.update row with ⟨after, _ | fault⟩ <;> rw [hupdate] at hahead
      · have hstep : advance w flag ⟨n, .feeding row rows⟩ = ⟨after, .testing rows⟩ := by
          simp only [Task.advance, hupdate]
        rw [hstep]
        exact .running (by simp) hahead.symm
      · have hstep : advance w flag ⟨n, .feeding row rows⟩ = ⟨after, .flagging fault.report⟩ := by
          simp only [Task.advance, hupdate]
        rw [hstep]
        exact .running (by simp) hahead.symm
    | flagging e => exact .running (by simp [Task.advance]) rfl
    | recording e => exact .ended
    | done => exact absurd rfl hphase

theorem Stands.of_done (h : Stands w flag alone t recorded) (hdone : t.phase = .done) :
    (t.node = alone.1 ∧ recorded = alone.2) ∨ (flag = true ∧ recorded = none) := by
  cases h with
  | running hphase => exact absurd hdone hphase
  | ended => exact .inl ⟨rfl, rfl⟩
  | stopped hflag => exact .inr ⟨hflag, rfl⟩

theorem Stands.recorded_eq (h : Stands w flag alone t recorded) {e : ReduceError}
    (he : recorded = some e) : alone.2 = some e := by
  cases h with
  | ended => exact he
  | running | stopped => cases he

/-! ### The end of a task -/

/-- A bound on the steps that a task has left. -/
def stepsLeft (w : Workload) (t : Task) : Nat :=
  match t.phase with
  | .opening => 2 * w.batch.numRows + 3
  | .testing rows => 2 * rows.length + 2
  | .feeding _ rows => 2 * rows.length + 3
  | .flagging _ => 2
  | .recording _ => 1
  | .done => 0

theorem phase_eq_done_of_stepsLeft (h : t.stepsLeft w = 0) : t.phase = .done := by
  obtain ⟨n, phase⟩ := t
  cases phase <;> simp [stepsLeft] at h ⊢

theorem stepsLeft_advance (w : Workload) (flag : Bool) (t : Task) :
    (t.advance w flag).stepsLeft w ≤ t.stepsLeft w - 1 := by
  obtain ⟨n, phase⟩ := t
  cases phase with
  | opening =>
    cases hcursor : w.batch.cursor w.fields with
    | error e =>
      simp only [advance, hcursor, stepsLeft]
      omega
    | ok cursor =>
      obtain ⟨projection, -, rfl⟩ := Batch.cursor_eq_ok_iff.1 hcursor
      simp only [advance, hcursor, stepsLeft, List.length_map, Cursor.length_rest,
        Cursor.remaining]
      omega
  | testing rows =>
    cases rows with
    | nil => simp [advance, stepsLeft]
    | cons row rows =>
      cases flag with
      | true => exact Nat.zero_le _
      | false =>
        simp only [advance, stepsLeft, List.length_cons, Bool.false_eq_true, if_false]
        omega
  | feeding row rows =>
    rcases hupdate : n.update row with ⟨after, _ | fault⟩ <;>
      simp only [advance, hupdate, stepsLeft] <;> omega
  | flagging | recording | done => simp [advance, stepsLeft]

end Task

/-! ### All tasks -/

def Workload.alone (w : Workload) (nodes : List Node) (slots : List Slot) :
    List (Node × Option ReduceError) :=
  List.zipWith (fun n slot => n.runTask w.batch w.fields slot) nodes slots

theorem Workload.getElem?_alone_eq_some_iff {w : Workload} {nodes : List Node} {slots : List Slot}
    {i : Nat} {a : Node × Option ReduceError} :
    (w.alone nodes slots)[i]? = some a ↔ ∃ n slot, nodes[i]? = some n ∧ slots[i]? = some slot ∧
      n.runTask w.batch w.fields slot = a :=
  List.getElem?_zipWith_eq_some

namespace Run

variable {w : Workload} {nodes : List Node} {slots : List Slot}
  {alone : List (Node × Option ReduceError)} {run : Run}

theorem tasks_step_self (w : Workload) (run : Run) (position : Nat) :
    (run.step w position).tasks[position]? =
      run.tasks[position]?.map (Task.advance w run.flag) := by
  unfold step
  cases h : run.tasks[position]? with
  | none => exact h
  | some t =>
    obtain ⟨hlt, -⟩ := List.getElem?_eq_some_iff.1 h
    rw [Option.map_some]
    exact List.getElem?_set_self hlt

def HasFailure (run : Run) : Prop :=
  ∃ i, (∃ e, run.failures.get? i = some e) ∨
    ∃ t e, run.tasks[i]? = some t ∧ t.phase = .recording e

/-- Every task stands where the schedule may have brought it, and the flag tells of a failure. -/
structure Sound (w : Workload) (alone : List (Node × Option ReduceError)) (run : Run) : Prop where
  ascending : run.failures.Ascending
  length_tasks : run.tasks.length = alone.length
  get?_beyond : ∀ i, alone.length ≤ i → run.failures.get? i = none
  stands : ∀ i (t : Task) a, run.tasks[i]? = some t → alone[i]? = some a →
    t.Stands w run.flag a (run.failures.get? i)
  cancels_of_flag : run.flag = true → w.cancels = true
  failure_of_flag : run.flag = true → run.HasFailure

theorem sound_start (w : Workload) (nodes : List Node) (slots : List Slot) :
    (start nodes slots).Sound w (w.alone nodes slots) where
  ascending := Failures.ascending_empty
  length_tasks := by simp [start, Workload.alone]
  get?_beyond := fun _ _ => rfl
  stands := by
    intro i t a ht ha
    obtain ⟨n, slot, hn, hslot, rfl⟩ := Workload.getElem?_alone_eq_some_iff.1 ha
    obtain ⟨m, other, hm, hother, rfl⟩ := List.getElem?_zipWith_eq_some.1 ht
    cases hn.symm.trans hm
    cases hslot.symm.trans hother
    exact Task.stands_start w false n slot
  cancels_of_flag := nofun
  failure_of_flag := nofun

/-- What a step records, position by position. -/
theorem get?_step (hsound : run.Sound w alone) {position : Nat} {t : Task}
    (ht : run.tasks[position]? = some t) (i : Nat) :
    (run.step w position).failures.get? i =
      if i = position then (run.failures.get? i).or t.recorded? else run.failures.get? i := by
  cases hrecorded : t.recorded? with
  | none =>
    have hfailures : (run.step w position).failures = run.failures := by
      simp only [step, ht, hrecorded]
    rw [hfailures, Option.or_none, ite_self]
  | some failure =>
    have hfailures : (run.step w position).failures = run.failures.record position failure := by
      simp only [step, ht, hrecorded]
    rw [hfailures, Failures.get?_record hsound.ascending]
    by_cases hi : i = position <;> simp [hi]

theorem flag_step {position : Nat} {t : Task} (ht : run.tasks[position]? = some t) :
    (run.step w position).flag = (run.flag || t.flags w) := by
  simp only [step, ht]

theorem HasFailure.step (h : run.HasFailure) (hsound : run.Sound w alone) (position : Nat) :
    (run.step w position).HasFailure := by
  cases ht : run.tasks[position]? with
  | none => simpa only [Run.step, ht] using h
  | some t =>
    have hget := get?_step hsound ht
    obtain ⟨i, ⟨e, he⟩ | ⟨s, e, hs, hphase⟩⟩ := h
    · refine ⟨i, .inl ⟨e, ?_⟩⟩
      rw [hget]
      split <;> simp [he]
    · by_cases hi : position = i
      · -- The task that was about to record its failure does so in this step.
        subst hi
        cases ht.symm.trans hs
        have hrecorded : t.recorded? = some e := by simp only [Task.recorded?, hphase]
        refine ⟨position, .inl ?_⟩
        rw [hget, if_pos rfl, hrecorded]
        cases run.failures.get? position <;> simp
      · exact ⟨i, .inr ⟨s, e, by rwa [tasks_step_of_ne w run hi], hphase⟩⟩

theorem hasFailure_step_of_flags {position : Nat} {t : Task}
    (ht : run.tasks[position]? = some t) (hflags : t.flags w = true) :
    w.cancels = true ∧ (run.step w position).HasFailure := by
  unfold Task.flags at hflags
  split at hflags
  · next e hphase =>
    have hself := tasks_step_self w run position
    rw [ht, Option.map_some] at hself
    exact ⟨hflags, position, .inr ⟨_, e, hself, by simp only [Task.advance, hphase]⟩⟩
  · cases hflags

theorem Sound.step (hsound : run.Sound w alone) (position : Nat) :
    (run.step w position).Sound w alone := by
  cases ht : run.tasks[position]? with
  | none =>
    have hstep : run.step w position = run := by simp only [Run.step, ht]
    rwa [hstep]
  | some t =>
    have hget := get?_step hsound ht
    have hflag := flag_step (w := w) ht
    have hset : (run.step w position).flag = true → run.flag = true ∨ t.flags w = true := by
      rw [hflag, Bool.or_eq_true]
      exact id
    refine ⟨?_, ?_, ?_, ?_, ?_, ?_⟩
    · simp only [Run.step, ht]
      split
      · exact hsound.ascending.record _ _
      · exact hsound.ascending
    · rw [length_tasks_step, hsound.length_tasks]
    · intro i hi
      have hlt := (List.getElem?_eq_some_iff.1 ht).1
      rw [hget, if_neg (by have := hsound.length_tasks; omega), hsound.get?_beyond i hi]
    · intro i s a hs ha
      have hlater : run.flag = true → (run.step w position).flag = true := by
        intro h
        simp [hflag, h]
      rw [hget]
      by_cases hi : position = i
      · subst hi
        rw [tasks_step_self, ht, Option.map_some] at hs
        cases hs
        rw [if_pos rfl]
        exact (hsound.stands position t a ht ha).advance.mono hlater
      · rw [tasks_step_of_ne w run hi] at hs
        rw [if_neg (Ne.symm hi)]
        exact (hsound.stands i s a hs ha).mono hlater
    · intro h
      rcases hset h with h | h
      · exact hsound.cancels_of_flag h
      · exact (hasFailure_step_of_flags ht h).1
    · intro h
      rcases hset h with h | h
      · exact (hsound.failure_of_flag h).step hsound position
      · exact (hasFailure_step_of_flags ht h).2

theorem Sound.follow (hsound : run.Sound w alone) (schedule : List Nat) :
    (run.follow w schedule).Sound w alone := by
  induction schedule generalizing run with
  | nil => exact hsound
  | cons position rest ih => exact ih (hsound.step position)

/-! ### The end of a run -/

theorem exists_stepsLeft_follow (w : Workload) (run : Run) (schedule : List Nat) {i : Nat}
    {t : Task} (ht : (run.follow w schedule).tasks[i]? = some t) :
    ∃ s, run.tasks[i]? = some s ∧ t.stepsLeft w ≤ s.stepsLeft w - schedule.count i := by
  induction schedule generalizing run with
  | nil => exact ⟨t, ht, by simp⟩
  | cons position rest ih =>
    obtain ⟨s, hs, hle⟩ := ih (run.step w position) ht
    by_cases hi : position = i
    · subst hi
      rw [tasks_step_self, Option.map_eq_some_iff] at hs
      obtain ⟨before, hbefore, rfl⟩ := hs
      have hadvance := before.stepsLeft_advance w run.flag
      refine ⟨before, hbefore, ?_⟩
      rw [List.count_cons_self]
      omega
    · rw [tasks_step_of_ne w run hi] at hs
      exact ⟨s, hs, by rwa [List.count_cons_of_ne hi]⟩

/-- A schedule that gives every task steps enough brings all to their end. -/
theorem finished_of_count (w : Workload) (nodes : List Node) (slots : List Slot)
    {schedule : List Nat}
    (h : ∀ i < nodes.length, 2 * w.batch.numRows + 3 ≤ schedule.count i) :
    ((start nodes slots).follow w schedule).Finished := by
  intro t ht
  obtain ⟨i, hi⟩ := List.mem_iff_getElem?.1 ht
  obtain ⟨s, hs, hle⟩ := exists_stepsLeft_follow w _ schedule hi
  obtain ⟨n, slot, hn, -, rfl⟩ := List.getElem?_zipWith_eq_some.1 hs
  have hcount := h i (List.getElem?_eq_some_iff.1 hn).1
  have hstart : (Task.start n slot).stepsLeft w ≤ 2 * w.batch.numRows + 3 := by
    cases slot <;> simp [Task.start, Task.stepsLeft]
  exact Task.phase_eq_done_of_stepsLeft (w := w) (by omega)

end Run

end Columnar
