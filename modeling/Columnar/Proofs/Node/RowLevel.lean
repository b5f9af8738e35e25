import Columnar.Node.Meaning
import Columnar.Proofs.Node.Tree

/-!
# Nodes without aggregates

A node without an aggregate in it is computed anew on every row. Whatever it remembers, its step
comes to what its evaluation on the row alone comes to (`answers_update`): it fails with the same
fault, and if it does not, its result is the value. So an aggregate over such an argument folds the
values of the argument, row by row, and stops at the first row that has none or whose value it
cannot take (`feed_aggregate`).
-/

namespace Columnar

namespace Fault

variable {α β : Type}

theorem ofEval_eq_ok_iff {x : Except EvalError α} {a : α} : ofEval x = .ok a ↔ x = .ok a := by
  cases x <;> simp [ofEval]

theorem ofEval_bind (x : Except EvalError α) (f : α → Except EvalError β) :
    ofEval (x >>= f) = ofEval x >>= fun a => ofEval (f a) := by
  cases x <;> rfl

theorem ofEval_mapM (f : α → Except EvalError β) (l : List α) :
    ofEval (l.mapM f) = l.mapM fun a => ofEval (f a) := by
  induction l with
  | nil => rfl
  | cons a rest ih =>
    rw [List.mapM_cons, List.mapM_cons, ofEval_bind]
    refine congrArg (ofEval (f a) >>= ·) (funext fun b => ?_)
    rw [ofEval_bind, ih]
    rfl

end Fault

namespace Node

@[simp] theorem evaluateAll_eq_mapM (row : Row) (ns : List Node) :
    evaluateAll row ns = ns.mapM (evaluate row) := by
  induction ns with
  | nil => rfl
  | cons n rest ih => rw [evaluateAll, ih, List.mapM_cons]

@[simp] theorem evaluate_fresh (row : Row) (n : Node) : n.fresh.evaluate row = n.evaluate row := by
  induction n with
  | constant | column | aggregateRows | probe => rfl
  | binary left op right current hleft hright =>
    rw [fresh, ofBinary, evaluate, hleft, hright, evaluate]
  | unary op operand current ih => rw [fresh, ofUnary, evaluate, ih, evaluate]
  | call function arguments current ih =>
    rw [fresh, ofCall, evaluate, evaluate, freshAll_eq_map, evaluateAll_eq_mapM,
      evaluateAll_eq_mapM, List.mapM_map]
    exact congrArg (· >>= _) (mapM_congr ih)
  | aggregate function argument acc ih => rw [fresh, ofAggregate, evaluate, ih, evaluate]
  | named inner name ih => rw [fresh, evaluate, ih, evaluate]

theorem evaluate_update (row other : Row) (n : Node) :
    (n.update row).1.evaluate other = n.evaluate other := by
  rw [← evaluate_fresh, fresh_update, evaluate_fresh]

/-! ### One step -/

/-- A step ends as an evaluation does, and if it succeeds the node then has the value. -/
inductive Answers : Node × Option Fault → Except Fault Value → Prop where
  | ok {n : Node} {v : Value} (h : n.finalize = .ok v) : Answers (n, none) (.ok v)
  | error (n : Node) (fault : Fault) : Answers (n, some fault) (.error fault)

theorem Answers.of_ok {step : Node × Option Fault} {v : Value} (h : Answers step (.ok v)) :
    step.2 = none ∧ step.1.finalize = .ok v := by
  cases h with
  | ok hv => exact ⟨rfl, hv⟩

theorem Answers.of_error {step : Node × Option Fault} {fault : Fault}
    (h : Answers step (.error fault)) : step.2 = some fault := by
  cases h
  rfl

theorem Answers.exists_ok {step : Node × Option Fault} {outcome : Except Fault Value}
    (h : Answers step outcome) (hnone : step.2 = none) : ∃ v, outcome = .ok v := by
  cases h with
  | @ok n v _ => exact ⟨v, rfl⟩
  | error => cases hnone

/-- An operator that has no aggregate below it answers with its value on its children's. -/
theorem answers_reevaluate {rebuild : Option Value → Node} {computed : Except EvalError Value}
    (hlevel : (rebuild none).containsAggregate = false)
    (hcomputed : (rebuild none).finalize = computed)
    (hremembers : ∀ v, (rebuild (some v)).finalize = .ok v) (current : Option Value) :
    Answers (reevaluate rebuild current) (Fault.ofEval computed) := by
  unfold reevaluate remember
  rw [if_neg (Bool.eq_false_iff.1 hlevel), hcomputed]
  cases computed with
  | ok v => exact .ok (hremembers v)
  | error e => exact .error _ _

inductive AnswerAll : List Node × Option Fault → Except Fault (List Value) → Prop where
  | ok {ns : List Node} {vs : List Value} (h : ns.mapM finalize = .ok vs) :
      AnswerAll (ns, none) (.ok vs)
  | error (ns : List Node) (fault : Fault) : AnswerAll (ns, some fault) (.error fault)

theorem answerAll_updateAll {row : Row} {ns : List Node}
    (h : ∀ n ∈ ns, Answers (n.update row) (n.evaluate row)) :
    AnswerAll (updateAll row ns) (ns.mapM (evaluate row)) := by
  induction ns with
  | nil => exact .ok rfl
  | cons n rest ih =>
    have hn := h n List.mem_cons_self
    have hrest := ih fun m hm => h m (List.mem_cons_of_mem n hm)
    rw [updateAll, List.mapM_cons]
    generalize n.update row = step, n.evaluate row = outcome at hn
    generalize updateAll row rest = steps, rest.mapM (evaluate row) = outcomes at hrest
    cases hn with
    | error => exact .error _ _
    | ok hv =>
      cases hrest with
      | error => exact .error _ _
      | ok hvs =>
        refine .ok ?_
        rw [List.mapM_cons, hv, hvs]
        rfl

/-- A step without aggregates answers with the evaluation on the row. What the node and its parts
remember has no part in it. -/
theorem answers_update (row : Row) {n : Node} (hlevel : n.containsAggregate = false) :
    Answers (n.update row) (n.evaluate row) := by
  induction n with
  | constant value => exact .ok rfl
  | probe label names faultOn =>
    rw [update, evaluate]
    cases faultOn (names.map row.get?) with
    | none => exact .ok rfl
    | some fault => exact .error _ _
  | aggregate | aggregateRows => cases hlevel
  | column name current =>
    rw [update, evaluate]
    cases row.get? name with
    | none => exact .error _ _
    | some v => exact .ok rfl
  | binary left op right current hleft hright =>
    obtain ⟨hl, hr⟩ := Bool.or_eq_false_iff.1 hlevel
    have hleftSame := containsAggregate_update row left
    have hrightSame := containsAggregate_update row right
    have hleft := hleft hl
    have hright := hright hr
    rw [update_binary, evaluate]
    generalize left.update row = leftStep, left.evaluate row = leftOutcome at *
    generalize right.update row = rightStep, right.evaluate row = rightOutcome at *
    cases hleft with
    | error => exact .error _ _
    | ok hlv =>
      cases hright with
      | error => exact .error _ _
      | ok hrv =>
        refine answers_reevaluate ?_ ?_ (fun v => by rw [finalize]) current
        · rw [containsAggregate, hleftSame, hrightSame, hl, hr]
          rfl
        · rw [finalize, hlv, hrv]
          rfl
  | unary op operand current ih =>
    have hsame := containsAggregate_update row operand
    have hoperand := ih hlevel
    rw [update_unary, evaluate]
    generalize operand.update row = step, operand.evaluate row = outcome at *
    cases hoperand with
    | error => exact .error _ _
    | ok hv =>
      refine answers_reevaluate ?_ ?_ (fun v => by rw [finalize]) current
      · rw [containsAggregate, hsame]
        exact hlevel
      · rw [finalize, hv]
        rfl
  | call function arguments current ih =>
    have hsame := anyContainsAggregate_updateAll row arguments
    have harguments : ∀ n ∈ arguments, Answers (n.update row) (n.evaluate row) := by
      intro n hn
      rw [containsAggregate, anyContainsAggregate_eq_any, List.any_eq_false] at hlevel
      exact ih n hn (Bool.eq_false_iff.2 (hlevel n hn))
    have hall := answerAll_updateAll harguments
    rw [update_call, evaluate, evaluateAll_eq_mapM]
    generalize updateAll row arguments = steps, arguments.mapM (evaluate row) = outcomes at *
    cases hall with
    | error => exact .error _ _
    | ok hvs =>
      refine answers_reevaluate ?_ ?_ (fun v => by rw [finalize]) current
      · rw [containsAggregate, hsame]
        exact hlevel
      · rw [finalize, finalizeAll_eq_mapM, hvs]
        rfl
  | named inner name ih =>
    have hinner := ih hlevel
    rw [update, evaluate]
    generalize inner.update row = step, inner.evaluate row = outcome at *
    cases hinner with
    | error => exact .error _ _
    | ok hv => exact .ok hv

/-! ### An aggregate over its argument -/

def foldValues (argument : Node) (acc : Accumulator) (rows : List Row) :
    Except Fault Accumulator :=
  rows.foldlM (fun acc row => argument.evaluate row >>= fun v => Fault.ofEval (acc.take v)) acc

variable {argument : Node} {acc : Accumulator} {rows : List Row}

theorem foldValues_congr {other : Node} (h : ∀ row, argument.evaluate row = other.evaluate row) :
    argument.foldValues acc rows = other.foldValues acc rows := by
  unfold foldValues
  simp only [h]

theorem foldValues_cons (argument : Node) (acc : Accumulator) (row : Row) (rows : List Row) :
    argument.foldValues acc (row :: rows) =
      argument.evaluate row >>= fun v =>
        Fault.ofEval (acc.take v) >>= fun next => argument.foldValues next rows := by
  unfold foldValues
  rw [List.foldlM_cons]
  cases argument.evaluate row <;> rfl

/-- An aggregate folds the values of its argument. -/
theorem answers_feed_aggregate (function : AggregateFunction)
    (hlevel : argument.containsAggregate = false) (acc : Accumulator) (rows : List Row) :
    Answers (feed rows (aggregate function argument acc))
      ((argument.foldValues acc rows).map Accumulator.result) := by
  induction rows generalizing argument acc with
  | nil => exact .ok rfl
  | cons row rows ih =>
    have hargument := answers_update row hlevel
    have hsame := (containsAggregate_update row argument).trans hlevel
    have hvalues : ∀ acc, (argument.update row).1.foldValues acc rows =
        argument.foldValues acc rows :=
      fun _ => foldValues_congr fun other => evaluate_update row other argument
    rw [feed, update, foldValues_cons]
    generalize argument.update row = step, argument.evaluate row = outcome at *
    cases hargument with
    | error => exact .error _ _
    | @ok after v hv =>
      dsimp only
      rw [hv]
      change Answers _ (Except.map _
        (Fault.ofEval (acc.take v) >>= fun next => argument.foldValues next rows))
      cases hfold : acc.take v with
      | error e =>
        rw [foldInto_of_error hfold]
        exact .error _ _
      | ok next =>
        rw [foldInto_of_ok hfold]
        have hrest := ih hsame next
        rw [hvalues] at hrest
        exact hrest

theorem foldValues_of_mapM {vs : List Value}
    (h : rows.mapM (fun row => argument.evaluate row) = .ok vs) :
    argument.foldValues acc rows = Fault.ofEval (acc.foldAll vs) := by
  induction rows generalizing acc vs with
  | nil =>
    cases h
    rfl
  | cons row rows ih =>
    rw [List.mapM_cons] at h
    obtain ⟨v, hv, h⟩ := bind_eq_ok_iff.1 h
    obtain ⟨ws, hws, h⟩ := bind_eq_ok_iff.1 h
    cases h
    rw [foldValues_cons, hv, Accumulator.foldAll, List.foldlM_cons]
    change (Fault.ofEval (acc.take v) >>= fun after => argument.foldValues after rows) = _
    cases acc.take v with
    | error e => rfl
    | ok after => exact ih hws

theorem exists_mapM_of_foldValues {after : Accumulator}
    (h : argument.foldValues acc rows = .ok after) :
    ∃ vs, rows.mapM (fun row => argument.evaluate row) = .ok vs ∧ acc.foldAll vs = .ok after := by
  have hvalue : ∀ row ∈ rows, ∃ v, argument.evaluate row = .ok v := by
    intro row hrow
    obtain ⟨-, -, c, next, -, -, hstep⟩ := exists_step_of_foldlM h hrow
    obtain ⟨v, hv, -⟩ := bind_eq_ok_iff.1 hstep
    exact ⟨v, hv⟩
  obtain ⟨vs, hvs⟩ := exists_mapM_eq_ok hvalue
  rw [foldValues_of_mapM hvs] at h
  exact ⟨vs, hvs, Fault.ofEval_eq_ok_iff.1 h⟩

end Node

end Columnar
