import Columnar.ScalarFunction
import Mathlib.Logic.Basic

/-!
# Integer arithmetic

An operation on 64-bit integers has its exact result if that is in range, and overflows if it is not
(`GivesExact`). Division rounds toward zero, which is to say that what it leaves over has the sign
of the dividend (`Truncates`), and a divisor of zero is an error of its own. One exact result is not
given although it is in range. The least integer divided by minus one leaves nothing over, but the
quotient is out of range, and a remainder is given only where its quotient is.
-/

namespace Columnar

/-! ### Range -/

def InRange (n : Int) : Prop := Int64.minValue.toInt ≤ n ∧ n ≤ Int64.maxValue.toInt

instance (n : Int) : Decidable (InRange n) := inferInstanceAs (Decidable (_ ∧ _))

theorem inRange_toInt (n : Int64) : InRange n.toInt :=
  ⟨Int64.toInt_minValue ▸ n.le_toInt, by
    have hlt := n.toInt_lt
    rw [Int64.toInt_maxValue]
    omega⟩

theorem inRange_iff {n : Int} : InRange n ↔ -9223372036854775808 ≤ n ∧ n ≤ 9223372036854775807 := by
  rw [InRange, Int64.toInt_minValue, Int64.toInt_maxValue]
  omega

theorem checked_eq_none_iff {n : Int} : checked n = none ↔ ¬ InRange n := by
  unfold checked InRange
  split <;> simp_all

/-- The exact result of an operation, or its overflow because that result is out of range. -/
inductive GivesExact (exact : Int) (operation : String) : Except EvalError Value → Prop where
  | ok {n : Int64} (h : n.toInt = exact) : GivesExact exact operation (.ok (.int64 n))
  | overflow (h : ¬ InRange exact) : GivesExact exact operation (.error (.overflow operation))

theorem givesExact_checkedOr (exact : Int) (operation : String) :
    GivesExact exact operation (checkedOr operation (checked exact)) := by
  cases h : checked exact with
  | some n => exact .ok (checked_eq_some_iff.1 h)
  | none => exact .overflow (checked_eq_none_iff.1 h)

theorem GivesExact.exists_ok {exact : Int} {operation : String} {outcome : Except EvalError Value}
    (h : GivesExact exact operation outcome) (hrange : InRange exact) :
    ∃ n : Int64, n.toInt = exact ∧ outcome = .ok (.int64 n) := by
  cases h with
  | ok hn => exact ⟨_, hn, rfl⟩
  | overflow hout => exact absurd hrange hout

/-! ### Division -/

/-- Quotient and remainder of a division that rounds toward zero. -/
structure Truncates (a b q r : Int) : Prop where
  eq : a = q * b + r
  small : r.natAbs < b.natAbs
  nonneg : 0 ≤ a → 0 ≤ r
  nonpos : a ≤ 0 → r ≤ 0

variable {a b q r : Int}

theorem Truncates.ne_zero (h : Truncates a b q r) : b ≠ 0 := by
  have hsmall := h.small
  rintro rfl
  omega

theorem truncates_tdiv_tmod (a : Int) (hb : b ≠ 0) : Truncates a b (a.tdiv b) (a.tmod b) where
  eq := (Int.tdiv_mul_add_tmod a b).symm
  small := by
    rw [Int.natAbs_tmod]
    exact Nat.mod_lt _ (Int.natAbs_pos.2 hb)
  nonneg := Int.tmod_nonneg b
  nonpos := by
    intro ha
    have hneg := Int.tmod_nonneg b (Int.neg_nonneg_of_nonpos ha)
    rw [Int.neg_tmod] at hneg
    omega

/-- There is one such pair for every divisor but zero. -/
theorem truncates_iff (hb : b ≠ 0) : Truncates a b q r ↔ a.tdiv b = q ∧ a.tmod b = r := by
  constructor
  · intro h
    have heq : r + b * q = a := by rw [h.eq, Int.mul_comm q b, Int.add_comm]
    have hsmall := h.small
    rcases Int.le_total 0 a with ha | ha
    · have hr := h.nonneg ha
      exact (Int.tdiv_tmod_unique ha hb).2 ⟨heq, hr, by omega⟩
    · have hr := h.nonpos ha
      exact (Int.tdiv_tmod_unique' ha hb).2 ⟨heq, by omega, hr⟩
  · rintro ⟨rfl, rfl⟩
    exact truncates_tdiv_tmod a hb

/-- A quotient of integers is out of range only for the least of them by minus one. -/
theorem inRange_tdiv_iff (m : Int64) {n : Int64} (hn : n ≠ 0) :
    InRange (m.toInt.tdiv n.toInt) ↔ ¬ (m = Int64.minValue ∧ n = -1) := by
  have hm := inRange_iff.1 (inRange_toInt m)
  have hn0 : n.toInt ≠ 0 := fun h => hn (Int64.toInt_inj.1 h)
  rw [← Int64.toInt_inj, ← Int64.toInt_inj, Int64.toInt_minValue, inRange_iff,
    show (-1 : Int64).toInt = -1 from rfl]
  by_cases hone : n.toInt = 1
  · rw [hone, Int.tdiv_one]
    omega
  · by_cases hminus : n.toInt = -1
    · rw [hminus, Int.tdiv_neg, Int.tdiv_one]
      omega
    · -- A divisor of two or more in magnitude halves the dividend at least.
      have hhalf : (m.toInt.tdiv n.toInt).natAbs ≤ m.toInt.natAbs / 2 := by
        rw [Int.natAbs_tdiv]
        exact Nat.div_le_div_left (by omega) (by decide)
      omega

theorem inRange_tmod (m : Int64) {n : Int64} (hn : n ≠ 0) : InRange (m.toInt.tmod n.toInt) := by
  have hn0 : n.toInt ≠ 0 := fun h => hn (Int64.toInt_inj.1 h)
  have hbound := inRange_iff.1 (inRange_toInt n)
  have hsmall := (truncates_tdiv_tmod m.toInt hn0).small
  exact inRange_iff.2 (by omega)

/-! ### Operators -/

namespace ArithmeticOp

/-- The exact result of an operation on integers. -/
inductive IsExact (a b : Int) : ArithmeticOp → Int → Prop where
  | add : IsExact a b .add (a + b)
  | sub : IsExact a b .sub (a - b)
  | mul : IsExact a b .mul (a * b)
  | div {q r : Int} (h : Truncates a b q r) : IsExact a b .div q
  | mod {q r : Int} (h : Truncates a b q r) : IsExact a b .mod r

theorem divides_iff {op : ArithmeticOp} : op.divides = true ↔ op = .div ∨ op = .mod := by
  cases op <;> simp [divides]

theorem isExact_iff {op : ArithmeticOp} {n : Int} (h : op.divides = true → b ≠ 0) :
    IsExact a b op n ↔ n = op.onInt a b := by
  cases op with
  | add | sub | mul =>
    refine ⟨fun hn => ?_, ?_⟩
    · cases hn
      rfl
    · rintro rfl
      constructor
  | div =>
    refine ⟨fun hn => ?_, ?_⟩
    · cases hn with
      | div htruncates => exact ((truncates_iff (h rfl)).1 htruncates).1.symm
    · rintro rfl
      exact .div (truncates_tdiv_tmod a (h rfl))
  | mod =>
    refine ⟨fun hn => ?_, ?_⟩
    · cases hn with
      | mod htruncates => exact ((truncates_iff (h rfl)).1 htruncates).2.symm
    · rintro rfl
      exact .mod (truncates_tdiv_tmod a (h rfl))

def written (op : ArithmeticOp) (m n : Int64) : String :=
  intText m.toInt ++ " " ++ op.symbol ++ " " ++ intText n.toInt

theorem apply_int64 (op : ArithmeticOp) (m n : Int64) :
    (BinaryOp.arithmetic op).apply (.int64 m) (.int64 n) =
      if op.divides ∧ n = 0 then .error .divisionByZero
      else checkedOr (op.written m n) (op.onInt64 m n) := rfl

/-- The one remainder that has no quotient in range. -/
theorem onInt64_eq (op : ArithmeticOp) {m n : Int64} (h : ¬ (op.divides = true ∧ n = 0)) :
    op.onInt64 m n =
      if op = .mod ∧ m = Int64.minValue ∧ n = -1 then none
      else checked (op.onInt m.toInt n.toInt) := by
  unfold onInt64
  refine if_congr (and_congr_right fun hop => ?_) rfl rfl
  have hn : n ≠ 0 := fun hn => h ⟨hop ▸ rfl, hn⟩
  rw [checked_eq_none_iff, inRange_tdiv_iff m hn, not_not]

/-- An operation gives its exact result, but for that remainder. -/
theorem givesExact_apply (op : ArithmeticOp) {m n : Int64} (h : ¬ (op.divides = true ∧ n = 0))
    (hquotient : ¬ (op = .mod ∧ m = Int64.minValue ∧ n = -1)) :
    GivesExact (op.onInt m.toInt n.toInt) (op.written m n)
      ((BinaryOp.arithmetic op).apply (.int64 m) (.int64 n)) := by
  rw [apply_int64, if_neg h, onInt64_eq op h, if_neg hquotient]
  exact givesExact_checkedOr _ _

theorem apply_of_minValue {op : ArithmeticOp} {m n : Int64} (h : ¬ (op.divides = true ∧ n = 0))
    (hquotient : op = .mod ∧ m = Int64.minValue ∧ n = -1) :
    (BinaryOp.arithmetic op).apply (.int64 m) (.int64 n) = .error (.overflow (op.written m n)) := by
  rw [apply_int64, if_neg h, onInt64_eq op h, if_pos hquotient]
  rfl

theorem apply_eq_divisionByZero_iff {op : ArithmeticOp} {m n : Int64} :
    (BinaryOp.arithmetic op).apply (.int64 m) (.int64 n) = .error .divisionByZero ↔
      op.divides = true ∧ n = 0 := by
  rw [apply_int64]
  by_cases h : op.divides = true ∧ n = 0
  · rw [if_pos h]
    exact iff_of_true rfl h
  · rw [if_neg h]
    refine iff_of_false (fun herror => ?_) h
    cases hresult : op.onInt64 m n <;> rw [hresult] at herror <;> cases herror

/-- Where a quotient is in range, it and its remainder are given. -/
theorem exists_quotient_remainder {m n : Int64} {q r : Int} (h : Truncates m.toInt n.toInt q r)
    (hq : InRange q) :
    ∃ q' r' : Int64, q'.toInt = q ∧ r'.toInt = r ∧
      (BinaryOp.arithmetic .div).apply (.int64 m) (.int64 n) = .ok (.int64 q') ∧
      (BinaryOp.arithmetic .mod).apply (.int64 m) (.int64 n) = .ok (.int64 r') := by
  have hn : n ≠ 0 := fun hn => h.ne_zero (Int64.toInt_inj.2 hn)
  obtain ⟨rfl, rfl⟩ := (truncates_iff h.ne_zero).1 h
  have hquotient := (inRange_tdiv_iff m hn).1 hq
  have hdiv := givesExact_apply .div (fun h => hn h.2) (fun h => hquotient h.2)
  have hmod := givesExact_apply .mod (fun h => hn h.2) (fun h => hquotient h.2)
  obtain ⟨q', hq', hdiv⟩ := hdiv.exists_ok hq
  obtain ⟨r', hr', hmod⟩ := hmod.exists_ok (inRange_tmod m hn)
  exact ⟨q', r', hq', hr', hdiv, hmod⟩

/-- Integers are computed exactly. Only a divisor of zero is an error of its own. Otherwise there is
one exact result, and it is given if it is in range, with the exception of one remainder. So a
dividend is its quotient times the divisor, and the remainder, wherever the quotient is in range. -/
theorem apply_int64_exact (m n : Int64) :
    (∀ op : ArithmeticOp,
      ((BinaryOp.arithmetic op).apply (.int64 m) (.int64 n) = .error .divisionByZero ↔
        (op = .div ∨ op = .mod) ∧ n = 0) ∧
      (¬ ((op = .div ∨ op = .mod) ∧ n = 0) →
        ∃ exact, (∀ k, IsExact m.toInt n.toInt op k ↔ k = exact) ∧
          (¬ (op = .mod ∧ m = Int64.minValue ∧ n = -1) →
            GivesExact exact (op.written m n)
              ((BinaryOp.arithmetic op).apply (.int64 m) (.int64 n))) ∧
          (op = .mod ∧ m = Int64.minValue ∧ n = -1 →
            (BinaryOp.arithmetic op).apply (.int64 m) (.int64 n) =
              .error (.overflow (op.written m n))))) ∧
    GivesExact (-m.toInt) ("-(" ++ intText m.toInt ++ ")") (UnaryOp.neg.apply (.int64 m)) ∧
    GivesExact m.toInt.natAbs ("ABS(" ++ intText m.toInt ++ ")")
      (ScalarFunction.abs.apply [.int64 m]) ∧
    ∀ q r : Int, Truncates m.toInt n.toInt q r → InRange q →
      ∃ q' r' : Int64,
        (BinaryOp.arithmetic .div).apply (.int64 m) (.int64 n) = .ok (.int64 q') ∧
        (BinaryOp.arithmetic .mod).apply (.int64 m) (.int64 n) = .ok (.int64 r') ∧
        m.toInt = q'.toInt * n.toInt + r'.toInt := by
  refine ⟨fun op => ?_, givesExact_checkedOr _ _, givesExact_checkedOr _ _, fun q r h hq => ?_⟩
  · rw [← divides_iff]
    refine ⟨apply_eq_divisionByZero_iff, fun hzero => ?_⟩
    refine ⟨op.onInt m.toInt n.toInt, fun k => isExact_iff fun hop hn => ?_,
      givesExact_apply op hzero, apply_of_minValue hzero⟩
    exact hzero ⟨hop, Int64.toInt_inj.1 hn⟩
  · obtain ⟨q', r', rfl, rfl, hdiv, hmod⟩ := exists_quotient_remainder h hq
    exact ⟨q', r', hdiv, hmod, h.eq⟩

theorem apply_int64_exact_minusSevenHalves :
    Truncates (-7) 2 (-3) (-1) ∧ InRange (-3) ∧
      ∃ q r : Int64,
        (BinaryOp.arithmetic .div).apply (.int64 (-7)) (.int64 2) = .ok (.int64 q) ∧
        (BinaryOp.arithmetic .mod).apply (.int64 (-7)) (.int64 2) = .ok (.int64 r) ∧
        (-7 : Int) = q.toInt * 2 + r.toInt := by
  have htruncates : Truncates (-7) 2 (-3) (-1) := (truncates_iff (by decide)).2 (by decide)
  have hrange : InRange (-3) := by decide
  exact ⟨htruncates, hrange, (apply_int64_exact (-7) 2).2.2.2 (-3) (-1) htruncates hrange⟩

/-- The least integer is divisible by minus one, but the remainder is not given. -/
theorem mod_minValue_minusOne :
    (∀ k, IsExact Int64.minValue.toInt (-1) .mod k ↔ k = 0) ∧ InRange 0 ∧
      (BinaryOp.arithmetic .mod).apply (.int64 Int64.minValue) (.int64 (-1)) =
        .error (.overflow "-9223372036854775808 % -1") := by
  refine ⟨fun k => ?_, by decide, rfl⟩
  exact isExact_iff fun _ => by decide

end ArithmeticOp

end Columnar
