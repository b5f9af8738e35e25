import Columnar.Proofs.Node.Sums

/-!
# Rows that fail

A node may be fed on after a row that failed. Such a step leaves behind what the parts of the tree
learned before the failure, so different histories leave different values all over a tree. None of
these is read again. A tree without aggregates answers the next row as its evaluation on that row
alone, and an aggregate over such a tree has folded the values of the rows that succeeded and of no
other.
-/

namespace Columnar

namespace Node

/-- The node after a list of rows, each fed whether or not those before it failed. -/
def feedThrough (rows : List Row) (n : Node) : Node := rows.foldl (fun n row => (n.update row).1) n

/-- The rows of a list that succeed when all of it is fed. -/
def takenRows : List Row → Node → List Row
  | [], _ => []
  | row :: rows, n =>
    match (n.update row).2 with
    | none => row :: takenRows rows (n.update row).1
    | some _ => takenRows rows (n.update row).1

variable {n m argument : Node} {row : Row} {rows : List Row} {fault : Fault}

theorem feedThrough_cons (row : Row) (rows : List Row) (n : Node) :
    feedThrough (row :: rows) n = feedThrough rows (n.update row).1 := rfl

theorem takenRows_cons_of_none (h : (n.update row).2 = none) (rows : List Row) :
    takenRows (row :: rows) n = row :: takenRows rows (n.update row).1 := by
  rw [takenRows, h]

theorem takenRows_cons_of_fault (h : (n.update row).2 = some fault) (rows : List Row) :
    takenRows (row :: rows) n = takenRows rows (n.update row).1 := by
  rw [takenRows, h]

/-! ### Trees without aggregates -/

theorem Answers.snd_eq {step : Node × Option Fault} {outcome : Except Fault Value}
    (h : Answers step outcome) : step.2 = Fault.of? outcome := by
  cases h <;> rfl

theorem sameRowLevel_feedThrough (rows : List Row) (n : Node) :
    SameRowLevel (feedThrough rows n) n := by
  induction rows generalizing n with
  | nil => exact ⟨rfl, fun _ => rfl⟩
  | cons row rows ih => exact (ih (n.update row).1).trans (sameRowLevel_update row n)

theorem answers_feedThrough (hlevel : n.containsAggregate = false) (before : List Row)
    (row : Row) : Answers ((feedThrough before n).update row) (n.evaluate row) := by
  have hsame := sameRowLevel_feedThrough before n
  rw [← hsame.2 row]
  exact answers_update row (hsame.1.trans hlevel)

/-- Trees without aggregates have no memory. After any two histories, of which any rows may have
failed, the next row has one outcome, that of evaluating the tree on it alone, and where it succeeds
the result is the value. -/
theorem update_feedThrough (hlevel : n.containsAggregate = false) (before before' : List Row)
    (row : Row) :
    ((feedThrough before n).update row).2 = ((feedThrough before' n).update row).2 ∧
    ((feedThrough before n).update row).2 = Fault.of? (n.evaluate row) ∧
    (((feedThrough before n).update row).2 = none →
      ∃ v, n.evaluate row = .ok v ∧
        ((feedThrough before n).update row).1.finalize = .ok v ∧
        ((feedThrough before' n).update row).1.finalize = .ok v) := by
  have hanswers := answers_feedThrough hlevel before row
  have hanswers' := answers_feedThrough hlevel before' row
  refine ⟨hanswers.snd_eq.trans hanswers'.snd_eq.symm, hanswers.snd_eq, fun hnone => ?_⟩
  obtain ⟨v, hv⟩ := hanswers.exists_ok hnone
  rw [hv] at hanswers hanswers'
  exact ⟨v, hv, hanswers.of_ok.2, hanswers'.of_ok.2⟩

def quotientPlusDividend : Node :=
  ofBinary (ofBinary (ofColumn "x") (.arithmetic .div) (ofColumn "y")) (.arithmetic .add)
    (ofColumn "x")

/-- One history ends with a division by zero, and the other lacks a column after a row that
succeeded. -/
theorem update_feedThrough_quotientPlusDividend :
    let before : List Row := [⟨[("x", .int64 7), ("y", .int64 0)]⟩]
    let before' : List Row := [⟨[("x", .int64 1), ("y", .int64 1)]⟩, ⟨[("y", .int64 2)]⟩]
    let row : Row := ⟨[("x", .int64 6), ("y", .int64 3)]⟩
    quotientPlusDividend.containsAggregate = false ∧
      (feed before quotientPlusDividend).2 = some (.eval .divisionByZero) ∧
      (feed before' quotientPlusDividend).2 = some (.eval (.missingField "x")) ∧
      ∃ v, quotientPlusDividend.evaluate row = .ok v ∧
        ((feedThrough before quotientPlusDividend).update row).1.finalize = .ok v ∧
        ((feedThrough before' quotientPlusDividend).update row).1.finalize = .ok v := by
  intro before before' row
  have hlevel : quotientPlusDividend.containsAggregate = false := rfl
  have hnone : ((feedThrough before quotientPlusDividend).update row).2 = none := rfl
  exact ⟨hlevel, rfl, rfl, (update_feedThrough hlevel before before' row).2.2 hnone⟩

/-! ### Aggregates over them -/

theorem SameRowLevel.symm (h : SameRowLevel n m) : SameRowLevel m n :=
  ⟨h.1.symm, fun row => (h.2 row).symm⟩

/-- One aggregate, with arguments that may remember different rows. -/
inductive SameAggregate : Node → Node → Prop where
  | aggregate (function : AggregateFunction) (acc : Accumulator) {argument argument' : Node}
      (hlevel : argument.containsAggregate = false) (h : SameRowLevel argument argument') :
      SameAggregate (.aggregate function argument acc) (.aggregate function argument' acc)
  | aggregateRows (function : AggregateFunction) (acc : Accumulator) :
      SameAggregate (.aggregateRows function acc) (.aggregateRows function acc)

theorem IsPlainAggregate.sameAggregate (h : n.IsPlainAggregate) : SameAggregate n n := by
  cases h with
  | aggregate function acc hargument =>
    exact .aggregate function acc hargument ⟨rfl, fun _ => rfl⟩
  | aggregateRows function acc => exact .aggregateRows function acc

theorem SameAggregate.finalize_eq (h : SameAggregate n m) : n.finalize = m.finalize := by
  cases h <;> rfl

theorem update_aggregate_of_fault (function : AggregateFunction)
    (hlevel : argument.containsAggregate = false) (h : argument.evaluate row = .error fault)
    (acc : Accumulator) :
    (aggregate function argument acc).update row =
      (aggregate function (argument.update row).1 acc, some fault) := by
  have hanswers := answers_update row hlevel
  rw [h] at hanswers
  have hfault := hanswers.of_error
  rw [update]
  rcases hu : argument.update row with ⟨after, _ | e⟩ <;> rw [hu] at hfault <;> cases hfault
  rfl

theorem foldInto_cases (rebuild : Accumulator → Node) (acc : Accumulator) (v : Value) :
    (∃ next, acc.take v = .ok next ∧ foldInto rebuild acc (.ok v) = (rebuild next, none)) ∨
      ∃ fault, foldInto rebuild acc (.ok v) = (rebuild acc, some fault) := by
  cases hfold : acc.take v with
  | ok next => exact .inl ⟨next, rfl, foldInto_of_ok hfold⟩
  | error e => exact .inr ⟨.eval e, foldInto_of_error hfold⟩

theorem update_aggregate_cases (function : AggregateFunction)
    (hlevel : argument.containsAggregate = false) (row : Row) (acc : Accumulator) :
    (∃ v next, argument.evaluate row = .ok v ∧ acc.take v = .ok next ∧
      (aggregate function argument acc).update row =
        (aggregate function (argument.update row).1 next, none)) ∨
    ∃ fault, (aggregate function argument acc).update row =
      (aggregate function (argument.update row).1 acc, some fault) := by
  cases hv : argument.evaluate row with
  | error fault => exact .inr ⟨fault, update_aggregate_of_fault function hlevel hv acc⟩
  | ok v =>
    rw [update_aggregate_of_evaluate function hlevel hv]
    rcases foldInto_cases (aggregate function (argument.update row).1) acc v with
      ⟨next, hfold, hstep⟩ | hfault
    · exact .inl ⟨v, next, rfl, hfold, hstep⟩
    · exact .inr hfault

/-- A row that succeeds does so whatever the argument remembers, and folds the same value. -/
theorem SameAggregate.update (h : SameAggregate n m) (hnone : (n.update row).2 = none) :
    (m.update row).2 = none ∧ SameAggregate (n.update row).1 (m.update row).1 := by
  cases h with
  | aggregateRows function acc =>
    rw [Node.update] at hnone ⊢
    rcases foldInto_cases (Node.aggregateRows function) acc (.bool true) with
      ⟨next, -, hstep⟩ | ⟨fault, hstep⟩ <;> rw [hstep] at hnone ⊢
    · exact ⟨rfl, .aggregateRows function next⟩
    · cases hnone
  | @aggregate function acc a b hlevel hsame =>
    rcases update_aggregate_cases function hlevel row acc with
      ⟨v, next, hv, hfold, hstep⟩ | ⟨fault, hstep⟩ <;> rw [hstep] at hnone ⊢
    · have hlevel' : b.containsAggregate = false := hsame.1.symm.trans hlevel
      have hv' : b.evaluate row = .ok v := (hsame.2 row).symm.trans hv
      rw [update_aggregate_of_evaluate function hlevel' hv', foldInto_of_ok hfold]
      have hafter := sameRowLevel_update row a
      exact ⟨rfl, .aggregate function next (hafter.1.trans hlevel)
        ((hafter.trans hsame).trans (sameRowLevel_update row b).symm)⟩
    · cases hnone

/-- A row that fails leaves the accumulator as it was. -/
theorem SameAggregate.of_fault (h : SameAggregate n m) (hfault : (n.update row).2 = some fault) :
    SameAggregate (n.update row).1 m := by
  cases h with
  | aggregateRows function acc =>
    rw [Node.update] at hfault ⊢
    rcases foldInto_cases (Node.aggregateRows function) acc (.bool true) with
      ⟨next, -, hstep⟩ | ⟨_, hstep⟩ <;> rw [hstep] at hfault ⊢
    · cases hfault
    · exact .aggregateRows function acc
  | @aggregate function acc a b hlevel hsame =>
    rcases update_aggregate_cases function hlevel row acc with
      ⟨_, _, -, -, hstep⟩ | ⟨_, hstep⟩ <;> rw [hstep] at hfault ⊢
    · cases hfault
    · have hafter := sameRowLevel_update row a
      exact .aggregate function acc (hafter.1.trans hlevel) (hafter.trans hsame)

/-- The rows that succeed in one aggregate can be fed to the other, and lead to the same. -/
theorem SameAggregate.feed_takenRows (h : SameAggregate n m) (rows : List Row) :
    (feed (takenRows rows n) m).2 = none ∧
      SameAggregate (feedThrough rows n) (feed (takenRows rows n) m).1 := by
  induction rows generalizing n m with
  | nil => exact ⟨rfl, h⟩
  | cons row rows ih =>
    rw [feedThrough_cons]
    cases hrow : (n.update row).2 with
    | none =>
      obtain ⟨hnone, hafter⟩ := h.update hrow
      rw [takenRows_cons_of_none hrow, feed_cons_of_update hnone]
      exact ih hafter
    | some fault =>
      rw [takenRows_cons_of_fault hrow]
      exact ih (h.of_fault hrow)

/-- A row that fails contributes nothing to an aggregate. From any state of the aggregate, a fresh
one in particular, only the rows that succeeded can be fed. It takes all of them, and its result is
the one after all rows. -/
theorem finalize_feedThrough (h : n.IsPlainAggregate) (rows : List Row) :
    (feed (takenRows rows n) n).2 = none ∧
      (feed (takenRows rows n) n).1.finalize = (feedThrough rows n).finalize := by
  obtain ⟨hnone, hsame⟩ := h.sameAggregate.feed_takenRows rows
  exact ⟨hnone, hsame.finalize_eq.symm⟩

/-- A sum of quotients, over rows of which one lacks a column, one has no quotient, and one has a
quotient that makes the sum too large. -/
theorem finalize_feedThrough_sumOfQuotients :
    let sum : Node := ofAggregate .sum
      (ofBinary (ofColumn "x") (.arithmetic .div) (ofColumn "y"))
    let first : Row := ⟨[("x", .int64 6), ("y", .int64 2)]⟩
    let missing : Row := ⟨[("x", .int64 8)]⟩
    let undefined : Row := ⟨[("x", .int64 1), ("y", .int64 0)]⟩
    let large : Row := ⟨[("x", .int64 Int64.maxValue), ("y", .int64 1)]⟩
    let last : Row := ⟨[("x", .int64 10), ("y", .int64 2)]⟩
    sum.IsPlainAggregate ∧ sum.fresh = sum ∧
      takenRows [first, missing, undefined, large, last] sum = [first, last] ∧
      (feed [first, last] sum).2 = none ∧
      (feed [first, last] sum).1.finalize =
        (feedThrough [first, missing, undefined, large, last] sum).finalize ∧
      (feedThrough [first, missing, undefined, large, last] sum).finalize = .ok (.int64 8) := by
  intro sum first missing undefined large last
  have hplain : sum.IsPlainAggregate := .aggregate .sum _ rfl
  have htaken : takenRows [first, missing, undefined, large, last] sum = [first, last] := rfl
  obtain ⟨hnone, hfinalize⟩ :=
    finalize_feedThrough hplain [first, missing, undefined, large, last]
  rw [htaken] at hnone hfinalize
  exact ⟨hplain, rfl, htaken, hnone, hfinalize, rfl⟩

end Node

end Columnar
