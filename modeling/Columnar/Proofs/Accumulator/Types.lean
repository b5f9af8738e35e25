import Columnar.Proofs.Accumulator.Extreme
import Mathlib.Data.List.Dedup

/-!
# Types of aggregates

Whether an aggregate takes a list of values, and the type of its result, depend on the types that
occur among the values, nulls apart, and not on their order. A sum remembers no more than the type
its result would have so far (`RunningSum.type?`), and what an extreme holds has that type, so both
are brought to a common type value by value (`Typed`). An average needs numbers only.
-/

namespace Columnar

def Value.types (vs : List Value) : List DataType := ((nonNulls vs).map dataType).dedup

/-- The type that values of some types are brought to, if all of them can be. -/
def DataType.commonOf : List DataType → DataType
  | [] => null
  | [t] => t
  | _ => float64

/-- The type of a result, from the types that occur among the values. -/
def AggregateFunction.resultType (function : AggregateFunction) (types : List DataType) :
    DataType :=
  match function with
  | count => .int64
  | avg => if types = [] then .null else .float64
  | sum | min | max => .commonOf types

open Extreme (CommonType)

variable {vs ws : List Value} {v : Value} {s : Option DataType} {t : DataType}

theorem Value.forall_mem_types {p : DataType → Prop} :
    (∀ t ∈ types vs, p t) ↔ ∀ v ∈ nonNulls vs, p v.dataType := by
  simp [types]

theorem Value.exists_mem_types {p : DataType → Prop} :
    (∃ t ∈ types vs, p t) ↔ ∃ v ∈ nonNulls vs, p v.dataType := by
  simp [types]

theorem Value.types_eq_nil_iff : types vs = [] ↔ nonNulls vs = [] := by
  simp [types, List.dedup_eq_nil]

theorem Value.exists_toDouble?_iff : (∃ x, v.toDouble? = some x) ↔ v.dataType.isNumeric = true := by
  cases v <;> simp [toDouble?, dataType, DataType.isNumeric]

/-! ### A common type -/

def Typed (vs : List Value) : Option DataType → Prop
  | none => vs = []
  | some t => vs ≠ [] ∧ CommonType vs t

theorem Typed.append (h : Typed vs s) (hv : ∀ t, s = some t → t.Alike v.dataType) :
    Typed (vs ++ [v]) (some (s.elim v.dataType fun t => t.common v.dataType)) := by
  refine ⟨by simp, ?_⟩
  cases s with
  | none =>
    obtain rfl : vs = [] := h
    exact .same (by simp)
  | some t => exact h.2.append h.1 (hv t rfl)

theorem Typed.getD_eq (h : Typed vs s) :
    s.getD .null = .commonOf (vs.map Value.dataType).dedup := by
  cases s with
  | none =>
    obtain rfl : vs = [] := h
    rfl
  | some t =>
    obtain ⟨hne, h⟩ := h
    cases h with
    | same hsame =>
      have hreplicate : vs.map Value.dataType = List.replicate vs.length t := by
        rw [List.eq_replicate_iff]
        simpa using hsame
      rw [hreplicate, List.replicate_dedup (by simpa using hne)]
      rfl
    | mixed hv hw hdistinct _ =>
      have hvmem := List.mem_dedup.2 (List.mem_map_of_mem (f := Value.dataType) hv)
      have hwmem := List.mem_dedup.2 (List.mem_map_of_mem (f := Value.dataType) hw)
      generalize (vs.map Value.dataType).dedup = types at *
      match types with
      | [] => cases hvmem
      | [u] =>
        have hsame := (List.mem_singleton.1 hvmem).trans (List.mem_singleton.1 hwmem).symm
        exact absurd hsame hdistinct
      | _ :: _ :: _ => rfl

/-! ### Sums -/

namespace RunningSum

variable {running next : RunningSum}

/-- The type that the result of a sum would have. -/
def type? : RunningSum → Option DataType
  | empty => none
  | int _ => some .int64
  | float _ true => some .float32
  | float _ false => some .float64

theorem dataType_result (running : RunningSum) :
    running.result.dataType = running.type?.getD .null := by
  cases running with
  | float _ narrow => cases narrow <;> rfl
  | _ => rfl

theorem isNumeric_of_type? (h : running.type? = some t) : t.isNumeric = true := by
  cases running with
  | empty => cases h
  | int => cases h; rfl
  | float _ narrow => cases narrow <;> cases h <;> rfl

/-- A number that a sum takes brings its type to the common one. -/
theorem type?_add (hnull : v ≠ .null) (h : running.add v = .ok next) :
    v.dataType.isNumeric = true ∧
      next.type? = some (running.type?.elim v.dataType fun t => t.common v.dataType) := by
  cases v with
  | null => exact absurd rfl hnull
  | int64 n =>
    refine ⟨rfl, ?_⟩
    cases running with
    | empty => cases h; rfl
    | int total =>
      rw [add] at h
      split at h <;> cases h
      rfl
    | float _ narrow => cases narrow <;> cases h <;> rfl
  | float32 | float64 =>
    refine ⟨rfl, ?_⟩
    cases running with
    | float _ narrow => cases narrow <;> cases h <;> rfl
    | _ => cases h; rfl
  | _ => cases running <;> cases h

theorem typed_of_foldlM (hnull : ∀ v ∈ ws, v ≠ .null) (h : Typed vs running.type?)
    (hfold : ws.foldlM add running = .ok next) : Typed (vs ++ ws) next.type? := by
  induction ws generalizing vs running with
  | nil =>
    cases hfold
    rwa [List.append_nil]
  | cons v rest ih =>
    obtain ⟨hv, hrest⟩ := List.forall_mem_cons.1 hnull
    rw [List.foldlM_cons] at hfold
    obtain ⟨middle, hmiddle, hfold⟩ := bind_eq_ok_iff.1 hfold
    obtain ⟨hnumeric, htype⟩ := type?_add hv hmiddle
    have hstep : Typed (vs ++ [v]) middle.type? := by
      rw [htype]
      exact h.append fun t ht => .inr ⟨isNumeric_of_type? ht, hnumeric⟩
    have hafter := ih hrest hstep hfold
    rwa [List.append_assoc] at hafter

theorem isNumeric_of_foldlM (hnull : ∀ v ∈ ws, v ≠ .null)
    (hfold : ws.foldlM add running = .ok next) : ∀ v ∈ ws, v.dataType.isNumeric = true := by
  intro v hv
  obtain ⟨-, -, middle, after, -, -, hstep⟩ := exists_step_of_foldlM hfold hv
  exact (type?_add (hnull v hv) hstep).1

/-- A number is refused only where the sum overflows. -/
theorem overflow_of_add_eq_error {e : EvalError} (hnumeric : v.dataType.isNumeric = true)
    (h : running.add v = .error e) : ∃ operation, e = .overflow operation := by
  cases v with
  | int64 n =>
    cases running with
    | int total =>
      rw [add] at h
      split at h <;> cases h
      exact ⟨_, rfl⟩
    | _ => cases h
  | float32 | float64 => cases running <;> cases h
  | _ => cases hnumeric

end RunningSum

/-! ### Extremes -/

namespace Extreme

variable {side : Extreme} {held : Option Value}

theorem typed_of_foldlM (hnull : ∀ v ∈ vs, v ≠ .null)
    (hfold : vs.foldlM side.take none = .ok held) : Typed vs (held.map Value.dataType) := by
  have hholds := holding_of_foldlM hnull hfold
  cases held with
  | none => exact hholds
  | some m => exact ⟨Tracks.ne_nil hholds, Tracks.commonType hholds⟩

/-- Values that can be compared are numbers, or all of one of the other types with an order. -/
theorem comparable_iff :
    Comparable vs ↔ (∀ v ∈ vs, v.dataType.isNumeric = true) ∨
      ∃ t ∈ [DataType.string, .date, .timestamp], ∀ v ∈ vs, v.dataType = t := by
  constructor
  · intro hcomparable
    cases vs with
    | nil => exact .inl (by simp)
    | cons v rest =>
      obtain ⟨horder, halike⟩ := hcomparable v List.mem_cons_self
      cases hnumeric : v.dataType.isNumeric with
      | true =>
        refine .inl fun w hw => ?_
        rcases halike w hw with htype | ⟨-, hwnumeric⟩
        · exact htype ▸ hnumeric
        · exact hwnumeric
      | false =>
        have hother : v.dataType ∈ [DataType.string, .date, .timestamp] := by
          revert horder hnumeric
          cases v.dataType <;> decide
        refine .inr ⟨v.dataType, hother, fun w hw => ?_⟩
        rcases halike w hw with htype | ⟨hvnumeric, -⟩
        · exact htype.symm
        · cases hnumeric.symm.trans hvnumeric
  · intro hcases v hv
    rcases hcases with hnumeric | ⟨t, ht, hsame⟩
    · exact ⟨DataType.isOrderable_of_isNumeric (hnumeric v hv),
        fun w hw => .inr ⟨hnumeric v hv, hnumeric w hw⟩⟩
    · refine ⟨?_, fun w hw => .inl ((hsame v hv).trans (hsame w hw).symm)⟩
      rw [hsame v hv]
      revert ht
      cases t <;> decide

end Extreme

/-! ### All aggregates -/

namespace Accumulator

variable {total : Double} {n : Nat} {acc : Accumulator}

theorem foldAll_nonNulls (acc : Accumulator) (vs : List Value) :
    acc.foldAll (Value.nonNulls vs) = acc.foldAll vs := by
  refine Value.foldlM_nonNulls (fun acc => ?_) acc vs
  cases acc with
  | sum running => cases running <;> rfl
  | _ => rfl

theorem exists_foldAll_count (start : Int64) (vs : List Value) :
    ∃ rows, (count start).foldAll vs = .ok (count rows) := by
  induction vs generalizing start with
  | nil => exact ⟨start, rfl⟩
  | cons v rest ih => exact ih _

theorem foldAll_start_sum (vs : List Value) :
    (start .sum).foldAll vs = ((Value.nonNulls vs).foldlM RunningSum.add .empty).map sum := by
  rw [← foldAll_nonNulls]
  exact foldAll_eq_map take_sum RunningSum.empty (Value.nonNulls vs)

/-- An average takes any number, and nothing else but nulls. -/
theorem take_avg_eq_ok_iff (hnull : v ≠ .null) :
    (avg total n).take v = .ok acc ↔
      ∃ x, v.toDouble? = some x ∧ acc = avg (total.add x) (n + 1) := by
  rw [take_avg, if_neg (mt Value.isNull_iff.1 hnull)]
  cases v.toDouble? with
  | none => simp
  | some x => simp [eq_comm]

theorem foldAll_avg_eq_ok (hnull : ∀ v ∈ vs, v ≠ .null)
    (h : (avg total n).foldAll vs = .ok acc) :
    (∀ v ∈ vs, v.dataType.isNumeric = true) ∧ ∃ total', acc = avg total' (n + vs.length) := by
  induction vs generalizing total n with
  | nil =>
    cases h
    exact ⟨by simp, total, rfl⟩
  | cons v rest ih =>
    obtain ⟨hv, hrest⟩ := List.forall_mem_cons.1 hnull
    rw [foldAll_cons] at h
    obtain ⟨next, hnext, h⟩ := bind_eq_ok_iff.1 h
    obtain ⟨x, hx, rfl⟩ := (take_avg_eq_ok_iff hv).1 hnext
    obtain ⟨hnumeric, total', rfl⟩ := ih hrest h
    have hvnumeric := Value.exists_toDouble?_iff.1 ⟨x, hx⟩
    refine ⟨List.forall_mem_cons.2 ⟨hvnumeric, hnumeric⟩, total', ?_⟩
    rw [List.length_cons, Nat.add_right_comm, Nat.add_assoc]

theorem exists_foldAll_avg (total : Double) (n : Nat)
    (hnumeric : ∀ v ∈ vs, v.dataType.isNumeric = true) :
    ∃ acc, (avg total n).foldAll vs = .ok acc := by
  induction vs generalizing total n with
  | nil => exact ⟨_, rfl⟩
  | cons v rest ih =>
    obtain ⟨hv, hrest⟩ := List.forall_mem_cons.1 hnumeric
    have hnull : v ≠ .null := by
      rintro rfl
      cases hv
    obtain ⟨x, hx⟩ := Value.exists_toDouble?_iff.2 hv
    obtain ⟨acc, hacc⟩ := ih (total.add x) (n + 1) hrest
    refine ⟨acc, ?_⟩
    rw [foldAll_cons, (take_avg_eq_ok_iff hnull).2 ⟨x, hx, rfl⟩]
    exact hacc

theorem dataType_result_of_foldAll_extreme (side : Extreme)
    (h : (start side.function).foldAll vs = .ok acc) :
    acc.result.dataType = .commonOf (Value.types vs) := by
  rw [foldAll_start_function] at h
  obtain ⟨held, hheld, rfl⟩ := map_eq_ok_iff.1 h
  have htyped := Extreme.typed_of_foldlM Extreme.ne_null_of_mem_nonNulls hheld
  rw [Value.types, ← htyped.getD_eq]
  cases held <;> rfl

theorem dataType_result_of_foldAll {function : AggregateFunction}
    (h : (start function).foldAll vs = .ok acc) :
    acc.result.dataType = function.resultType (Value.types vs) := by
  have hnull : ∀ v ∈ Value.nonNulls vs, v ≠ .null := Extreme.ne_null_of_mem_nonNulls
  cases function with
  | count =>
    obtain ⟨rows, hrows⟩ := exists_foldAll_count 0 vs
    cases hrows.symm.trans h
    rfl
  | sum =>
    rw [foldAll_start_sum] at h
    obtain ⟨running, hrunning, rfl⟩ := map_eq_ok_iff.1 h
    have hempty : Typed [] RunningSum.empty.type? := rfl
    exact running.dataType_result.trans (RunningSum.typed_of_foldlM hnull hempty hrunning).getD_eq
  | avg =>
    rw [← foldAll_nonNulls] at h
    obtain ⟨-, total, rfl⟩ := foldAll_avg_eq_ok hnull h
    simp only [AggregateFunction.resultType, Value.types_eq_nil_iff, result, Nat.zero_add,
      List.length_eq_zero_iff]
    split <;> rfl
  | min => exact dataType_result_of_foldAll_extreme .least h
  | max => exact dataType_result_of_foldAll_extreme .greatest h

/-- Nulls change nothing. An average is taken of numbers and of nothing else, and so is a sum,
unless it overflows. An extreme is taken of numbers or of values of one other type that has an
order. The type of the result follows from the types that occur. -/
theorem foldAll_types (vs : List Value) :
    (∀ function, (start function).foldAll (Value.nonNulls vs) = (start function).foldAll vs) ∧
      ((∃ acc, (start .avg).foldAll vs = .ok acc) ↔
        ∀ t ∈ Value.types vs, t.isNumeric = true) ∧
      ((∃ t ∈ Value.types vs, t.isNumeric = false) → ∃ e, (start .sum).foldAll vs = .error e) ∧
      ((∀ t ∈ Value.types vs, t.isNumeric = true) → ∀ e, (start .sum).foldAll vs = .error e →
        ∃ operation, e = .overflow operation) ∧
      (∀ side : Extreme, (∃ acc, (start side.function).foldAll vs = .ok acc) ↔
        (∀ t ∈ Value.types vs, t.isNumeric = true) ∨
          ∃ t ∈ [DataType.string, .date, .timestamp], ∀ s ∈ Value.types vs, s = t) ∧
      ∀ function acc, (start function).foldAll vs = .ok acc →
        acc.result.dataType = function.resultType (Value.types vs) := by
  have hnull : ∀ v ∈ Value.nonNulls vs, v ≠ .null := Extreme.ne_null_of_mem_nonNulls
  simp only [Value.forall_mem_types, Value.exists_mem_types]
  refine ⟨fun function => foldAll_nonNulls _ vs, ⟨?_, ?_⟩, ?_, ?_, fun side => ?_, ?_⟩
  · rintro ⟨acc, h⟩
    rw [← foldAll_nonNulls] at h
    exact (foldAll_avg_eq_ok hnull h).1
  · intro hnumeric
    rw [← foldAll_nonNulls]
    exact exists_foldAll_avg _ 0 hnumeric
  · intro hother
    obtain ⟨v, hv, hother⟩ := hother
    cases h : (start .sum).foldAll vs with
    | error e => exact ⟨e, rfl⟩
    | ok acc =>
      rw [foldAll_start_sum] at h
      obtain ⟨running, hrunning, -⟩ := map_eq_ok_iff.1 h
      cases hother.symm.trans (RunningSum.isNumeric_of_foldlM hnull hrunning v hv)
  · intro hnumeric e h
    rw [foldAll_start_sum] at h
    obtain ⟨before, v, after, running, hsplit, -, hv⟩ :=
      foldlM_eq_error_iff.1 (map_eq_error_iff.1 h)
    have hmem : v ∈ Value.nonNulls vs := by rw [hsplit]; simp
    exact RunningSum.overflow_of_add_eq_error (hnumeric v hmem) hv
  · rw [foldAll_start_function, ← Extreme.comparable_iff, ← Extreme.exists_foldlM_iff hnull]
    constructor
    · rintro ⟨acc, h⟩
      obtain ⟨held, hheld, -⟩ := map_eq_ok_iff.1 h
      exact ⟨held, hheld⟩
    · rintro ⟨held, h⟩
      exact ⟨extreme side held, by rw [h]; rfl⟩
  · intro function acc h
    exact dataType_result_of_foldAll h

/-- Narrow floats before and after an integer. -/
def floatsAroundInteger : List Value := [.float32 (.ofInt 1), .null, .int64 2, .float32 (.ofInt 3)]

/-- The integer makes the sum and the extremes wide, and they stay so at the float after it. -/
theorem foldAll_types_floatsAroundInteger :
    (∃ acc, (start .avg).foldAll floatsAroundInteger = .ok acc) ∧
      (start .sum).foldAll floatsAroundInteger = .ok (sum (.float (.ofInt 6) false)) ∧
      (sum (.float (.ofInt 6) false)).result.dataType = .float64 ∧
      (∃ acc, (start .min).foldAll floatsAroundInteger = .ok acc) ∧
      ∃ e, (start .sum).foldAll [.int64 1, .bool true] = .error e := by
  obtain ⟨-, havg, -, -, hextreme, htype⟩ := foldAll_types floatsAroundInteger
  obtain ⟨-, -, hsum, -⟩ := foldAll_types [.int64 1, .bool true]
  have hnumeric : ∀ t ∈ Value.types floatsAroundInteger, t.isNumeric = true := by decide
  have hfold : (start .sum).foldAll floatsAroundInteger = .ok (sum (.float (.ofInt 6) false)) := by
    decide +kernel
  exact ⟨havg.2 hnumeric, hfold, (htype .sum _ hfold).trans (by decide),
    (hextreme .least).2 (.inl hnumeric), hsum (by decide)⟩

end Accumulator

end Columnar
