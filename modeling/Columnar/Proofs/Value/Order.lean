import Columnar.Value.Basic
import Mathlib.Data.Prod.Lex
import Mathlib.Data.String.Basic
import Mathlib.Order.Compare

/-!
# The order of values of one type

Each value that has an order has a rank in one linear order: a number, and for a string the string
itself. Two values compare exactly when they are of one type and both have a rank, and then as their
ranks do, so what is known of a linear order is known of values. Of exact values, those that are not
floats, the rank is the value.
-/

namespace Columnar.Value

def isFloat : Value → Bool
  | float32 _ | float64 _ => true
  | _ => false

def rank? : Value → Option (Int ×ₗ String)
  | int64 n => some (toLex (n.toInt, ""))
  | timestamp n => some (toLex (n.toInt, ""))
  | date n => some (toLex (n.toInt, ""))
  | float32 x => x.key?.map fun key => toLex (key, "")
  | float64 x => x.key?.map fun key => toLex (key, "")
  | bool b => some (toLex (b.toNat, ""))
  | string s => some (toLex (0, s))
  | null => none

theorem compares_toLex_int {o : Ordering} {a b : Int} :
    o.Compares (toLex (a, "")) (toLex (b, "")) ↔ compare a b = o := by
  rw [compare_iff]
  cases o <;> simp [Ordering.Compares, Prod.Lex.toLex_lt_toLex]

theorem compares_toLex_string {o : Ordering} {a b : String} :
    o.Compares (toLex ((0 : Int), a)) (toLex ((0 : Int), b)) ↔ compareOfLessAndEq a b = o := by
  rw [← LinearOrder.compare_eq_compareOfLessAndEq, compare_iff]
  cases o <;> simp [Ordering.Compares, Prod.Lex.toLex_lt_toLex]

theorem compare?_float_iff {f : FloatFormat} {x y : Floating f} {o : Ordering} :
    x.compare? y = some o ↔ ∃ a b, (x.key?.map fun key => toLex (key, "")) = some a ∧
      (y.key?.map fun key => toLex (key, "")) = some b ∧ o.Compares a b := by
  unfold Floating.compare?
  cases x.key? <;> cases y.key? <;> simp [compares_toLex_int]

/-- Values compare as their ranks do, if they are of one type and both have a rank. -/
theorem compare?_eq_some_iff {v w : Value} {o : Ordering} :
    v.compare? w = some o ↔
      v.dataType = w.dataType ∧ ∃ a b, v.rank? = some a ∧ w.rank? = some b ∧ o.Compares a b := by
  cases v <;> cases w
  case bool.bool a b =>
    have hcast : compare a.toNat b.toNat = compare (a.toNat : Int) b.toNat := by
      cases a <;> cases b <;> rfl
    simp [compare?, dataType, rank?, compares_toLex_int, hcast]
  all_goals
    simp [compare?, dataType, rank?, compare?_float_iff, compares_toLex_int, compares_toLex_string]

/-! ### What a linear order gives -/

/-- Two comparisons in a row make a third, unless they go in opposite directions. -/
theorem compare?_then {u v w : Value} {o o' : Ordering} (huv : u.compare? v = some o)
    (hvw : v.compare? w = some o') (hsame : o = o' ∨ o = .eq ∨ o' = .eq) :
    u.compare? w = some (o.then o') := by
  obtain ⟨hu, a, b, ha, hb, hab⟩ := compare?_eq_some_iff.1 huv
  obtain ⟨hv, b', c, hb', hc, hbc⟩ := compare?_eq_some_iff.1 hvw
  cases hb.symm.trans hb'
  refine compare?_eq_some_iff.2 ⟨hu.trans hv, a, c, ha, hc, ?_⟩
  rcases hsame with rfl | rfl | rfl
  · cases o with
    | lt => exact lt_trans hab hbc
    | eq => exact Eq.trans hab hbc
    | gt => exact lt_trans hbc hab
  · obtain rfl : a = b := hab
    exact hbc
  · obtain rfl : b = c := hbc
    cases o <;> exact hab

theorem compare?_trans {u v w : Value} {o : Ordering} (huv : u.compare? v = some o)
    (hvw : v.compare? w = some o) : u.compare? w = some o := by
  rw [compare?_then huv hvw (.inl rfl)]
  cases o <;> rfl

theorem compare?_swap {v w : Value} {o : Ordering} (h : v.compare? w = some o) :
    w.compare? v = some o.swap := by
  obtain ⟨htype, a, b, ha, hb, hab⟩ := compare?_eq_some_iff.1 h
  exact compare?_eq_some_iff.2 ⟨htype.symm, b, a, hb, ha, Ordering.compares_swap.2 hab⟩

theorem compare?_comm (v w : Value) : w.compare? v = (v.compare? w).map Ordering.swap := by
  cases h : v.compare? w with
  | some o => exact compare?_swap h
  | none =>
    refine Option.eq_none_iff_forall_ne_some.2 fun o ho => ?_
    cases h.symm.trans (compare?_swap ho)

theorem compare?_self_ne {v : Value} {o : Ordering} (ho : o ≠ .eq) : v.compare? v ≠ some o := by
  intro h
  obtain ⟨-, a, b, ha, hb, hab⟩ := compare?_eq_some_iff.1 h
  cases ha.symm.trans hb
  cases o with
  | lt | gt => exact lt_irrefl a hab
  | eq => exact ho rfl

/-! ### Exact values -/

theorem dataType_of_isNumeric {v : Value} (hexact : v.isFloat = false)
    (hnumeric : v.dataType.isNumeric = true) : v.dataType = .int64 := by
  cases v with
  | int64 => rfl
  | float32 | float64 => cases hexact
  | _ => cases hnumeric

theorem exists_rank? {v : Value} (hnull : v ≠ null) (hexact : v.isFloat = false) :
    ∃ a, v.rank? = some a := by
  cases v with
  | null => exact absurd rfl hnull
  | float32 | float64 => cases hexact
  | _ => exact ⟨_, rfl⟩

/-- Exact values of one type have their ranks to themselves. -/
theorem eq_of_rank?_eq {v w : Value} (htype : v.dataType = w.dataType) (hexact : v.isFloat = false)
    (h : v.rank? = w.rank?) : v = w := by
  cases v <;> cases w
  case bool.bool a b => cases a <;> cases b <;> simp_all [rank?]
  all_goals simp_all [dataType, rank?, isFloat, Int64.toInt_inj, Int32.toInt_inj]

theorem ne_null_of_dataType_eq {v w : Value} (htype : v.dataType = w.dataType) (hnull : v ≠ null) :
    w ≠ null := by
  rwa [Ne, ← dataType_eq_null_iff, ← htype, dataType_eq_null_iff]

/-- Exact values of one type, nulls apart, have an order, and only equal ones have none strictly. -/
theorem eq_or_compare?_of_exact {v w : Value} (htype : v.dataType = w.dataType) (hnull : v ≠ null)
    (hv : v.isFloat = false) (hw : w.isFloat = false) :
    v = w ∨ v.compare? w = some .lt ∨ v.compare? w = some .gt := by
  obtain ⟨a, ha⟩ := exists_rank? hnull hv
  obtain ⟨b, hb⟩ := exists_rank? (ne_null_of_dataType_eq htype hnull) hw
  rcases lt_trichotomy a b with hlt | rfl | hgt
  · exact .inr (.inl (compare?_eq_some_iff.2 ⟨htype, a, b, ha, hb, hlt⟩))
  · exact .inl (eq_of_rank?_eq htype hv (ha.trans hb.symm))
  · exact .inr (.inr (compare?_eq_some_iff.2 ⟨htype, a, b, ha, hb, hgt⟩))

end Columnar.Value
