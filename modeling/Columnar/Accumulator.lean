import Columnar.Operator

/-!
# Accumulators

The running state of an aggregate function. Nulls leave every state as it is. Counting looks at
nothing else; sums and averages take numbers; the extremes take values that have an order, all of
one type or all numbers. A step changes the state in place and reports a value it cannot take;
`fold_of_error` says that it has changed nothing by then.
-/

namespace Columnar

inductive AggregateFunction where
  | count
  | sum
  | avg
  | min
  | max
deriving DecidableEq, Repr

def AggregateFunction.name : AggregateFunction → String
  | count => "COUNT"
  | sum => "SUM"
  | avg => "AVG"
  | min => "MIN"
  | max => "MAX"

/-- A running sum. It stays an integer while only integers came, and remembers whether all were of
the narrow float width. -/
inductive RunningSum where
  | empty
  | int (total : Int64)
  | float (total : Double) (narrow : Bool)
deriving DecidableEq

namespace RunningSum

def add (sum : RunningSum) (v : Value) : Except EvalError RunningSum :=
  match sum, v with
  | _, .null => .ok sum
  | empty, .int64 n => .ok (int n)
  | empty, .float32 x => .ok (float x.widen true)
  | empty, .float64 x => .ok (float x false)
  | int total, .int64 n =>
    match checked (total.toInt + n.toInt) with
    | some next => .ok (int next)
    | none => .error (.overflow ("SUM " ++ intText total.toInt ++ " + " ++ intText n.toInt))
  | int total, .float32 x => .ok (float (Floating.add (.ofInt total.toInt) x.widen) false)
  | int total, .float64 x => .ok (float (Floating.add (.ofInt total.toInt) x) false)
  | float total _, .int64 n => .ok (float (total.add (.ofInt n.toInt)) false)
  | float total narrow, .float32 x => .ok (float (total.add x.widen) narrow)
  | float total _, .float64 x => .ok (float (total.add x) false)
  | _, v => .error (.wrongType "numeric" v)

def result : RunningSum → Value
  | empty => .null
  | int total => .int64 total
  | float total true => .float32 total.narrow
  | float total false => .float64 total

end RunningSum

/-- Which end of an order is looked for. -/
inductive Extreme where
  | least
  | greatest
deriving DecidableEq, Repr

namespace Extreme

/-- How a value compares with the one held so far when it takes its place. -/
def replaces : Extreme → Ordering
  | least => .lt
  | greatest => .gt

/-- The extreme of the value held so far and the next one. Numbers of different types are compared,
and kept, as wide floats. -/
def choose (extreme : Extreme) (held next : Value) : Value :=
  let (held, next) := held.promote next
  if next.compare? held = some extreme.replaces then next else held

/-- What is held after one more value, and why the value was not taken, if it was not. -/
def fold (extreme : Extreme) (held : Option Value) (v : Value) : Option Value × Option EvalError :=
  if v.isNull then (held, none)
  else if !v.dataType.isOrderable then (held, some (.wrongType "orderable" v))
  else
    match held with
    | none => (some v, none)
    | some h =>
      if h.dataType = v.dataType || (h.dataType.isNumeric && v.dataType.isNumeric) then
        (some (extreme.choose h v), none)
      else (some h, some (.wrongType h.typeName v))

def take (extreme : Extreme) (held : Option Value) (v : Value) : Except EvalError (Option Value) :=
  extreme.fold held v

theorem take_eq (extreme : Extreme) (held : Option Value) (v : Value) :
    extreme.take held v =
      if v.isNull then .ok held
      else if !v.dataType.isOrderable then .error (.wrongType "orderable" v)
      else
        match held with
        | none => .ok (some v)
        | some h =>
          if h.dataType = v.dataType || (h.dataType.isNumeric && v.dataType.isNumeric) then
            .ok (some (extreme.choose h v))
          else .error (.wrongType h.typeName v) := by
  unfold take fold
  repeat' split
  all_goals rfl

theorem fold_of_error {extreme : Extreme} {held : Option Value} {v : Value} {e : EvalError}
    (h : (extreme.fold held v).2 = some e) : (extreme.fold held v).1 = held := by
  unfold fold at h ⊢
  by_cases hnull : v.isNull
  · rw [if_pos hnull]
  · rw [if_neg hnull] at h ⊢
    by_cases horder : !v.dataType.isOrderable
    · rw [if_pos horder]
    · rw [if_neg horder] at h ⊢
      cases held with
      | none => cases h
      | some m =>
        dsimp only at h ⊢
        split at h
        · cases h
        · next htypes => rw [if_neg htypes]

end Extreme

/-- The count of an average is exact. A counter of 64 bits agrees with it on fewer than `2 ^ 63`
values. -/
inductive Accumulator where
  | count (rows : Int64)
  | sum (running : RunningSum)
  | avg (total : Double) (count : Nat)
  | extreme (side : Extreme) (held : Option Value)
deriving DecidableEq

namespace Accumulator

def start : AggregateFunction → Accumulator
  | .count => count 0
  | .sum => sum .empty
  | .avg => avg (Floating.zero false) 0
  | .min => extreme .least none
  | .max => extreme .greatest none

/-- The state after one more value, and why the value was not taken, if it was not. -/
def fold (acc : Accumulator) (v : Value) : Accumulator × Option EvalError :=
  match acc with
  | count rows => (count (if v.isNull then rows else rows + 1), none)
  | sum running =>
    match running.add v with
    | .ok next => (sum next, none)
    | .error e => (sum running, some e)
  | avg total n =>
    if v.isNull then (avg total n, none)
    else
      match v.toDouble? with
      | some x =>
        let total := total.add x
        let n := n + 1
        (avg total n, none)
      | none => (avg total n, some (.wrongType "numeric" v))
  | extreme side held =>
    let (held, refused) := side.fold held v
    (extreme side held, refused)

def result : Accumulator → Value
  | count rows => .int64 rows
  | sum running => running.result
  | avg total n => if n = 0 then .null else .float64 (total.div (.ofInt n))
  | extreme _ held => held.getD .null

variable {acc : Accumulator} {v : Value}

/-- A value that is refused leaves the state as it was: it is refused before anything is written. -/
theorem fold_of_error {e : EvalError} (h : (acc.fold v).2 = some e) : (acc.fold v).1 = acc := by
  cases acc with
  | count rows => cases h
  | sum running =>
    simp only [fold] at h ⊢
    cases hadd : running.add v with
    | ok next =>
      rw [hadd] at h
      cases h
    | error d => rfl
  | avg total n =>
    simp only [fold] at h ⊢
    by_cases hnull : v.isNull
    · rw [if_pos hnull]
    · rw [if_neg hnull] at h ⊢
      cases hx : v.toDouble? with
      | some x =>
        rw [hx] at h
        cases h
      | none => rfl
  | extreme side held => exact congrArg (extreme side) (Extreme.fold_of_error h)

/-! ### Steps that succeed -/

/-- The state after one more value, if it can be taken. -/
def take (acc : Accumulator) (v : Value) : Except EvalError Accumulator := acc.fold v

theorem take_sum (running : RunningSum) (v : Value) :
    (sum running).take v = (running.add v).map sum := by
  simp only [take, fold]
  cases running.add v <;> rfl

theorem take_avg (total : Double) (n : Nat) (v : Value) :
    (avg total n).take v =
      if v.isNull then .ok (avg total n)
      else
        match v.toDouble? with
        | some x => .ok (avg (total.add x) (n + 1))
        | none => .error (.wrongType "numeric" v) := by
  simp only [take, fold]
  by_cases hnull : v.isNull
  · rw [if_pos hnull, if_pos hnull, stepOutcome]
  · rw [if_neg hnull, if_neg hnull]
    cases v.toDouble? <;> rfl

theorem take_extreme (side : Extreme) (held : Option Value) (v : Value) :
    (extreme side held).take v = (side.take held v).map (extreme side) := by
  simp only [take, fold, Extreme.take]
  rcases side.fold held v with ⟨next, _ | e⟩ <;> rfl

theorem fold_of_take {next : Accumulator} (h : acc.take v = .ok next) : acc.fold v = (next, none) :=
  stepOutcome_eq_ok_iff.1 h

theorem fold_of_take_error {e : EvalError} (h : acc.take v = .error e) :
    acc.fold v = (acc, some e) := by
  have hrefused := stepOutcome_eq_error_iff.1 h
  exact Prod.ext (fold_of_error hrefused) hrefused

def foldAll (acc : Accumulator) (vs : List Value) : Except EvalError Accumulator :=
  vs.foldlM take acc

end Accumulator

end Columnar
