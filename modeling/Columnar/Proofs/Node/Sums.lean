import Columnar.Proofs.Accumulator
import Columnar.Proofs.Integers
import Columnar.Proofs.Node.PartFeeds
import Columnar.Proofs.Node.RowLevel

/-!
# Exact sums

A sum of integers holds the exact total of what it has taken. So it goes on as long as the total of
the values so far is in the range of integers, whatever later values would bring it back to, and
stops at the first value with which it is not. The node then still has the total of the values
before that one, because a value that cannot be taken leaves the accumulator as it was.
-/

namespace Columnar

namespace Value

def total (vs : List Value) : Int := ((vs.filterMap int64?).map Int64.toInt).sum

theorem total_append_int64 (vs : List Value) (n : Int64) :
    total (vs ++ [int64 n]) = total vs + n.toInt := by
  simp [total, int64?]

inductive IsSum (vs : List Value) : Value → Prop where
  | null (h : ∀ v ∈ vs, v = .null) : IsSum vs .null
  | int64 {n : Int64} (hpresent : ∃ v ∈ vs, v ≠ .null) (htotal : n.toInt = total vs) :
      IsSum vs (.int64 n)

end Value

def Value.AllInts (vs : List Value) : Prop := ∀ v ∈ vs, v = .null ∨ ∃ n, v = .int64 n

namespace RunningSum

variable {vs : List Value} {running : RunningSum}

theorem Totals.inRange (h : running.Totals vs) : InRange (Value.total vs) := by
  cases h with
  | empty hnone =>
    rw [Value.total, hnone]
    decide
  | @int n _ htotal =>
    rw [Value.total, ← htotal]
    exact inRange_toInt n

theorem Totals.isSum (h : running.Totals vs) (hints : Value.AllInts vs) :
    Value.IsSum vs running.result := by
  cases h with
  | empty hnone =>
    refine .null fun v hv => ?_
    obtain rfl | ⟨n, rfl⟩ := hints v hv
    · rfl
    · exact absurd (List.filterMap_eq_nil_iff.1 hnone _ hv) (by simp [Value.int64?])
  | int hne htotal =>
    refine .int64 ?_ htotal
    by_contra hnulls
    push Not at hnulls
    exact hne (List.filterMap_eq_nil_iff.2 fun v hv => by rw [hnulls v hv]; rfl)

end RunningSum

namespace Accumulator

variable {vs : List Value} {acc : Accumulator}

theorem totals_of_foldAll (hints : Value.AllInts vs) (h : (start .sum).foldAll vs = .ok acc) :
    ∃ running, acc = sum running ∧ running.Totals vs := by
  have hexact : ∀ v ∈ vs, v.isFloat = false := by
    intro v hv
    obtain rfl | ⟨n, rfl⟩ := hints v hv <;> rfl
  cases summarizes_of_foldAll (by decide) hexact h with
  | sum hrunning => exact ⟨_, rfl, hrunning⟩

/-- A sum that does not take an integer has the total of those before it, with which that integer
is out of range. -/
theorem foldAll_sum_eq_error (hints : Value.AllInts vs) {e : EvalError}
    (h : (start .sum).foldAll vs = .error e) :
    ∃ before n after running, vs = before ++ .int64 n :: after ∧
      (start .sum).foldAll before = .ok (sum running) ∧ running.Totals before ∧
      (sum running).take (.int64 n) = .error e ∧ ¬ InRange (Value.total (before ++ [.int64 n])) ∧
      e = .overflow ("SUM " ++ intText (Value.total before) ++ " + " ++ intText n.toInt) := by
  obtain ⟨before, v, after, middle, rfl, hbefore, hv⟩ := foldlM_eq_error_iff.1 h
  obtain ⟨running, rfl, hrunning⟩ :=
    totals_of_foldAll (fun w hw => hints w (List.mem_append_left _ hw)) hbefore
  obtain ⟨held, n, rfl, rfl, hlarge, rfl⟩ :=
    hrunning.add_eq_error (hints v (by simp)) (map_eq_error_iff.1 ((take_sum _ _).symm.trans hv))
  cases hrunning with
  | int hne htotal =>
    have hheld : held.toInt = Value.total before := htotal
    rw [hheld, checked_eq_none_iff, ← Value.total_append_int64] at hlarge
    exact ⟨before, n, after, _, rfl, hbefore, .int hne htotal, hv, hlarge, by rw [hheld]⟩

/-- A sum can be taken exactly if every prefix has a total in range. -/
theorem exists_foldAll_sum_iff (hints : Value.AllInts vs) :
    (∃ acc, (start .sum).foldAll vs = .ok acc) ↔
      ∀ before, before <+: vs → InRange (Value.total before) := by
  constructor
  · rintro ⟨acc, h⟩ before ⟨after, rfl⟩
    unfold foldAll at h
    rw [List.foldlM_append] at h
    obtain ⟨middle, hmiddle, -⟩ := bind_eq_ok_iff.1 h
    obtain ⟨running, -, hrunning⟩ :=
      totals_of_foldAll (fun v hv => hints v (List.mem_append_left _ hv)) hmiddle
    exact hrunning.inRange
  · intro hrange
    cases h : (start .sum).foldAll vs with
    | ok acc => exact ⟨acc, rfl⟩
    | error e =>
      obtain ⟨before, n, after, -, rfl, -, -, -, hlarge, -⟩ := foldAll_sum_eq_error hints h
      exact absurd (hrange _ ⟨after, by simp⟩) hlarge

end Accumulator

namespace Node

variable {argument : Node} {acc next : Accumulator} {row : Row} {rows : List Row} {v : Value}
  {vs : List Value}

/-! ### Where an aggregate stops -/

/-- Expressions that are computed row by row, and have the same value on every row. -/
def SameRowLevel (n m : Node) : Prop :=
  n.containsAggregate = m.containsAggregate ∧ ∀ row, n.evaluate row = m.evaluate row

theorem sameRowLevel_update (row : Row) (n : Node) : SameRowLevel (n.update row).1 n :=
  ⟨containsAggregate_update row n, fun other => evaluate_update row other n⟩

theorem SameRowLevel.trans {n m k : Node} (h : SameRowLevel n m) (h' : SameRowLevel m k) :
    SameRowLevel n k :=
  ⟨h.1.trans h'.1, fun row => (h.2 row).trans (h'.2 row)⟩

theorem update_aggregate_of_evaluate (function : AggregateFunction)
    (hlevel : argument.containsAggregate = false) (hv : argument.evaluate row = .ok v)
    (acc : Accumulator) :
    (aggregate function argument acc).update row =
      foldInto (aggregate function (argument.update row).1) acc (.ok v) := by
  have hanswers := answers_update row hlevel
  rw [hv] at hanswers
  obtain ⟨hnone, hfinalize⟩ := hanswers.of_ok
  rw [update]
  rcases hu : argument.update row with ⟨after, _ | e⟩ <;> rw [hu] at hnone hfinalize
  · dsimp only
    rw [hfinalize]
  · cases hnone

/-- An aggregate that takes the values of all rows holds the accumulator of these. -/
theorem feed_aggregate_of_foldAll (function : AggregateFunction)
    (hlevel : argument.containsAggregate = false)
    (hvs : rows.mapM (fun row => argument.evaluate row) = .ok vs)
    (hfold : acc.foldAll vs = .ok next) :
    ∃ after, SameRowLevel after argument ∧
      feed rows (aggregate function argument acc) = (aggregate function after next, none) := by
  induction rows generalizing argument acc vs with
  | nil =>
    cases hvs
    cases hfold
    exact ⟨argument, ⟨rfl, fun _ => rfl⟩, rfl⟩
  | cons row rows ih =>
    rw [List.mapM_cons] at hvs
    obtain ⟨v, hv, hrest⟩ := bind_eq_ok_iff.1 hvs
    obtain ⟨ws, hws, hrest⟩ := bind_eq_ok_iff.1 hrest
    cases hrest
    rw [Accumulator.foldAll_cons] at hfold
    obtain ⟨middle, hmiddle, hfold⟩ := bind_eq_ok_iff.1 hfold
    have hsame := sameRowLevel_update row argument
    simp only [← hsame.2] at hws
    obtain ⟨after, hafter, hfeed⟩ := ih (hsame.1.trans hlevel) hws hfold
    refine ⟨after, hafter.trans hsame, ?_⟩
    rw [feed, update_aggregate_of_evaluate function hlevel hv, foldInto_of_ok hmiddle]
    exact hfeed

/-- An aggregate that does not take the value of a row stops there, with what it held before. -/
theorem feed_aggregate_of_error (function : AggregateFunction)
    (hlevel : argument.containsAggregate = false) {before after : List Value} {e : EvalError}
    (hvs : rows.mapM (fun row => argument.evaluate row) = .ok (before ++ v :: after))
    (hbefore : acc.foldAll before = .ok next) (hv : next.take v = .error e) :
    ∃ last, feed rows (aggregate function argument acc) =
      (aggregate function last next, some (.eval e)) := by
  have hall := mapM_eq_ok_iff.1 hvs
  have htaken := List.forall₂_take_append _ _ _ hall
  have hleft := List.forall₂_drop_append _ _ _ hall
  rw [← List.take_append_drop before.length rows]
  generalize rows.take before.length = taken, rows.drop before.length = left at *
  obtain ⟨middle, hmiddle, hfeed⟩ :=
    feed_aggregate_of_foldAll function hlevel (mapM_eq_ok_iff.2 htaken) hbefore
  rw [feed_append hfeed]
  cases hleft with
  | @cons row _ left _ hrow _ =>
    rw [← hmiddle.2] at hrow
    rw [feed, update_aggregate_of_evaluate function (hmiddle.1.trans hlevel) hrow,
      foldInto_of_error hv]
    exact ⟨_, rfl⟩

/-! ### Integer sums -/

/-- Integer sums are exact. Fed with rows on which its argument is a null or an integer, a sum takes
all of them exactly if the total of every prefix is in range, and then results in their exact sum.
Otherwise it overflows at the first row whose prefix is out of range, and results in the exact sum
of the rows before it. -/
theorem feed_sum (hlevel : argument.containsAggregate = false)
    (hvs : rows.mapM (fun row => argument.evaluate row) = .ok vs) (hints : Value.AllInts vs) :
    ((feed rows (ofAggregate .sum argument)).2 = none ↔
      ∀ before, before <+: vs → InRange (Value.total before)) ∧
    ((feed rows (ofAggregate .sum argument)).2 = none →
      ∃ result, (feed rows (ofAggregate .sum argument)).1.finalize = .ok result ∧
        Value.IsSum vs result) ∧
    ∀ fault, (feed rows (ofAggregate .sum argument)).2 = some fault →
      ∃ before n after, vs = before ++ .int64 n :: after ∧
        (∀ first, first <+: before → InRange (Value.total first)) ∧
        ¬ InRange (Value.total (before ++ [.int64 n])) ∧
        fault = .eval (.overflow
          ("SUM " ++ intText (Value.total before) ++ " + " ++ intText n.toInt)) ∧
        ∃ result, (feed rows (ofAggregate .sum argument)).1.finalize = .ok result ∧
          Value.IsSum before result := by
  rw [← Accumulator.exists_foldAll_sum_iff hints]
  cases hfold : (Accumulator.start .sum).foldAll vs with
  | ok acc =>
    obtain ⟨after, -, hfeed⟩ := feed_aggregate_of_foldAll .sum hlevel hvs hfold
    obtain ⟨running, rfl, hrunning⟩ := Accumulator.totals_of_foldAll hints hfold
    rw [ofAggregate, hfeed]
    refine ⟨iff_of_true rfl ⟨_, rfl⟩, fun _ => ⟨_, rfl, hrunning.isSum hints⟩,
      fun fault hfault => ?_⟩
    cases hfault
  | error e =>
    obtain ⟨before, n, after, running, rfl, hbefore, hrunning, hn, hlarge, rfl⟩ :=
      Accumulator.foldAll_sum_eq_error hints hfold
    have hintsBefore : Value.AllInts before := fun v hv => hints v (List.mem_append_left _ hv)
    obtain ⟨last, hfeed⟩ := feed_aggregate_of_error .sum hlevel hvs hbefore hn
    rw [ofAggregate, hfeed]
    refine ⟨iff_of_false ?_ ?_, fun hnone => ?_, fun fault hfault => ?_⟩
    · simp
    · simp
    · cases hnone
    · cases hfault
      exact ⟨before, n, after, rfl, (Accumulator.exists_foldAll_sum_iff hintsBefore).1 ⟨_, hbefore⟩,
        hlarge, rfl, _, rfl, hrunning.isSum hintsBefore⟩

def valuesBeyondRange : List Value :=
  [.int64 Int64.maxValue, .null, .int64 (-1), .int64 1, .int64 1]

theorem feed_sum_valuesBeyondRange :
    let rows := valuesBeyondRange.map (Row.empty.set "x")
    let fed := feed rows (ofAggregate .sum (ofColumn "x"))
    fed.2 = some (.eval (.overflow "SUM 9223372036854775807 + 1")) ∧
      ∃ before n after, valuesBeyondRange = before ++ .int64 n :: after ∧
        (∀ first, first <+: before → InRange (Value.total first)) ∧
        ¬ InRange (Value.total (before ++ [.int64 n])) ∧
        ∃ result, fed.1.finalize = .ok result ∧ Value.IsSum before result := by
  have hvs : (valuesBeyondRange.map (Row.empty.set "x")).mapM
      (fun row => (ofColumn "x").evaluate row) = .ok valuesBeyondRange := by decide
  have hints : Value.AllInts valuesBeyondRange := by simp [Value.AllInts, valuesBeyondRange]
  have hfault : (feed (valuesBeyondRange.map (Row.empty.set "x"))
      (ofAggregate .sum (ofColumn "x"))).2 =
        some (.eval (.overflow "SUM 9223372036854775807 + 1")) := by decide
  obtain ⟨before, n, after, hsplit, hfirst, hlarge, -, hresult⟩ :=
    (feed_sum rfl hvs hints).2.2 _ hfault
  exact ⟨hfault, before, n, after, hsplit, hfirst, hlarge, hresult⟩

end Node

end Columnar
