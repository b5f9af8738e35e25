import Columnar.Proofs.Value.Promotion

/-!
# Comparison operators

An operator on two values that can be compared reads off one thing, the order of the two in the type
they are compared in (`Value.order?`). That order turns round with the operands and is missing only
for invalid numbers, so the six operators fit together on every pair
(`BinaryOp.apply_comparison_coherent`).

On three values they need not: each pair has a type of its own. Wide floats have every number but
some integers, so the only comparison that could have been finer is that of two integers. Strict
orders are not lost on the way through floats (`Value.order?_trans`), while integers that are
different may both be equal to one float, and then nothing follows for the integers
(`Value.Weakly.trans`).
-/

namespace Columnar

namespace Value

variable {u v w : Value} {o : Ordering}

/-- The order of two values in the type they are compared in. -/
def order? (v w : Value) : Option Ordering :=
  (v.promoteTo (v.dataType.common w.dataType)).compare?
    (w.promoteTo (v.dataType.common w.dataType))

theorem promoteTo_ne_null {t : DataType} (hnull : v ≠ null) : v.promoteTo t ≠ null := by
  unfold promoteTo
  split
  · exact hnull
  · cases v with
    | null => exact absurd rfl hnull
    | _ => intro h; cases h

theorem order?_of_dataType_eq (htype : v.dataType = w.dataType) : v.order? w = v.compare? w := by
  unfold order? DataType.common
  rw [if_pos htype, promoteTo_of_dataType_eq rfl, promoteTo_of_dataType_eq htype.symm]

theorem order?_comm (v w : Value) : w.order? v = (v.order? w).map Ordering.swap := by
  unfold order?
  rw [DataType.common_comm w.dataType, compare?_comm]

theorem dataType_promoteTo_common (h : v.dataType.Alike w.dataType) :
    (v.promoteTo (v.dataType.common w.dataType)).dataType =
      (w.promoteTo (v.dataType.common w.dataType)).dataType := by
  rw [dataType_promoteTo h.promotesTo_common, DataType.common_comm,
    dataType_promoteTo h.symm.promotesTo_common]

/-- Only an invalid number has no order among values that it can be compared with. -/
theorem order?_eq_none_iff (hnull : v ≠ null) (h : v.dataType.Alike w.dataType) :
    v.order? w = none ↔ v.isNaN = true ∨ w.isNaN = true := by
  have hv := isNaN_promoteTo h.promotesTo_common
  have hw := isNaN_promoteTo h.symm.promotesTo_common
  rw [DataType.common_comm] at hw
  rw [← hv, ← hw]
  unfold order?
  constructor
  · intro hnone
    by_contra! hvalid
    obtain ⟨o, ho⟩ := exists_compare? (dataType_promoteTo_common h) (promoteTo_ne_null hnull)
      (Bool.eq_false_iff.2 hvalid.1) (Bool.eq_false_iff.2 hvalid.2)
    cases hnone.symm.trans ho
  · intro hinvalid
    refine Option.eq_none_iff_forall_ne_some.2 fun o ho => ?_
    obtain ⟨hvalid, hvalid'⟩ := isNaN_of_compare? ho
    simp [hvalid, hvalid'] at hinvalid

theorem isNaN_of_order? (h : v.dataType.Alike w.dataType) (ho : v.order? w = some o) :
    v.isNaN = false ∧ w.isNaN = false := by
  have hnull : v ≠ null := by
    rintro rfl
    rcases h with htype | ⟨hnumeric, -⟩
    · cases dataType_eq_null_iff.1 htype.symm
      cases ho
    · cases hnumeric
  have hsome : v.order? w ≠ none := fun hnone => by cases hnone.symm.trans ho
  rw [Ne, order?_eq_none_iff hnull h, not_or] at hsome
  exact ⟨Bool.eq_false_iff.2 hsome.1, Bool.eq_false_iff.2 hsome.2⟩

/-! ### Numbers as wide floats -/

/-- Only two integers are not compared as wide floats, or as if they were. -/
theorem order?_eq_wide (hv : v.dataType.isNumeric = true) (hw : w.dataType.isNumeric = true)
    (hint : ¬ (v.dataType = .int64 ∧ w.dataType = .int64)) :
    v.order? w = (v.promoteTo .float64).compare? (w.promoteTo .float64) := by
  by_cases htype : v.dataType = w.dataType
  · rw [order?_of_dataType_eq htype]
    cases v with
    | int64 => exact absurd ⟨rfl, htype.symm⟩ hint
    | float32 x =>
      cases w with
      | float32 y => exact (Floating.compare?_convert FloatFormat.single_widens_double x y).symm
      | _ => cases htype
    | float64 x =>
      cases w with
      | float64 y => rfl
      | _ => cases htype
    | _ => cases hv
  · unfold order? DataType.common
    rw [if_neg htype]

theorem ne_null_of_isNumeric (hv : v.dataType.isNumeric = true) : v ≠ null := by
  rintro rfl
  cases hv

theorem order?_of_wide (hv : v.dataType.isNumeric = true) (hw : w.dataType.isNumeric = true)
    (ho : o ≠ .eq) (h : (v.promoteTo .float64).compare? (w.promoteTo .float64) = some o) :
    v.order? w = some o := by
  by_cases htype : v.dataType = w.dataType
  · rw [order?_of_dataType_eq htype]
    exact compare?_of_promoteTo htype (ne_null_of_isNumeric hv) (.inr ⟨hv, rfl⟩) ho h
  · rwa [order?_eq_wide hv hw fun hint => htype (hint.1.trans hint.2.symm)]

/-- As wide floats, two numbers keep their order, except that integers may become equal. -/
theorem exists_wide_order (hv : v.dataType.isNumeric = true) (hw : w.dataType.isNumeric = true)
    (h : v.order? w = some o) :
    ∃ p, (v.promoteTo .float64).compare? (w.promoteTo .float64) = some p ∧
      (p = o ∨ p = .eq ∧ v.dataType = .int64 ∧ w.dataType = .int64) := by
  by_cases hint : v.dataType = .int64 ∧ w.dataType = .int64
  · have hwide : ∀ u : Value, u.dataType.isNumeric = true →
        (u.promoteTo .float64).dataType = .float64 ∧ (u.promoteTo .float64).isNaN = u.isNaN :=
      fun u hu => ⟨dataType_promoteTo (.inr ⟨hu, rfl⟩), isNaN_promoteTo (.inr ⟨hu, rfl⟩)⟩
    obtain ⟨hvalid, hvalid'⟩ := isNaN_of_order? (.inr ⟨hv, hw⟩) h
    obtain ⟨p, hp⟩ := exists_compare? ((hwide v hv).1.trans (hwide w hw).1.symm)
      (promoteTo_ne_null (ne_null_of_isNumeric hv)) ((hwide v hv).2.trans hvalid)
      ((hwide w hw).2.trans hvalid')
    refine ⟨p, hp, ?_⟩
    by_cases heq : p = .eq
    · exact .inr ⟨heq, hint⟩
    · exact .inl (Option.some.inj ((order?_of_wide hv hw heq hp).symm.trans h))
  · exact ⟨o, (order?_eq_wide hv hw hint).symm.trans h, .inl rfl⟩

/-! ### Three values -/

/-- Values that are compared one after the other are of one type or all numbers. -/
theorem dataType_eq_or_isNumeric (huv : u.dataType.Alike v.dataType)
    (hvw : v.dataType.Alike w.dataType) :
    (u.dataType = v.dataType ∧ v.dataType = w.dataType) ∨
      u.dataType.isNumeric = true ∧ v.dataType.isNumeric = true ∧ w.dataType.isNumeric = true := by
  rcases huv with huv | ⟨hu, hv⟩ <;> rcases hvw with hvw | ⟨hv', hw⟩
  · exact .inl ⟨huv, hvw⟩
  · exact .inr ⟨huv ▸ hv', hv', hw⟩
  · exact .inr ⟨hu, hv, hvw ▸ hv⟩
  · exact .inr ⟨hu, hv, hw⟩

/-- A strict order is transitive. Of three numbers that are not all integers one pair at most is
compared as integers, and the other pair is in strict order as floats. -/
theorem order?_trans (huv : u.dataType.Alike v.dataType) (hvw : v.dataType.Alike w.dataType)
    (ho : o ≠ .eq) (h : u.order? v = some o) (h' : v.order? w = some o) :
    u.order? w = some o := by
  by_cases htype : u.dataType = v.dataType ∧ v.dataType = w.dataType
  · rw [order?_of_dataType_eq htype.1] at h
    rw [order?_of_dataType_eq htype.2] at h'
    rw [order?_of_dataType_eq (htype.1.trans htype.2)]
    exact compare?_trans h h'
  · obtain ⟨hu, hv, hw⟩ := (dataType_eq_or_isNumeric huv hvw).resolve_left htype
    obtain ⟨p, hp, hpo⟩ := exists_wide_order hu hv h
    obtain ⟨q, hq, hqo⟩ := exists_wide_order hv hw h'
    refine order?_of_wide hu hw ho ?_
    rcases hpo with rfl | ⟨rfl, huint, hvint⟩
    · rcases hqo with rfl | ⟨rfl, -⟩
      · exact compare?_trans hp hq
      · rw [compare?_then hp hq (.inr (.inr rfl))]
        cases p <;> rfl
    · rcases hqo with rfl | ⟨rfl, -, hwint⟩
      · exact compare?_then hp hq (.inr (.inl rfl))
      · exact absurd ⟨huint.trans hvint.symm, hvint.trans hwint.symm⟩ htype

def Weakly (o : Ordering) (v w : Value) : Prop := ∃ p, v.order? w = some p ∧ (p = o ∨ p = .eq)

theorem then_of_or_eq {o p q : Ordering} (hp : p = o ∨ p = .eq) (hq : q = o ∨ q = .eq) :
    (p = q ∨ p = .eq ∨ q = .eq) ∧ (p.then q = o ∨ p.then q = .eq) := by
  rcases hp with hp | hp <;> rcases hq with hq | hq <;> rw [hp, hq] <;> cases o <;> decide

/-- A weak order is transitive but for two integers with a float between them. -/
theorem Weakly.trans (huv : u.dataType.Alike v.dataType) (hvw : v.dataType.Alike w.dataType)
    (h : Weakly o u v) (h' : Weakly o v w) :
    Weakly o u w ∨ (u.dataType = .int64 ∧ v.isFloat = true ∧ w.dataType = .int64) ∧
      u.order? v = some .eq ∧ v.order? w = some .eq := by
  obtain ⟨p, hp, hpo⟩ := h
  obtain ⟨q, hq, hqo⟩ := h'
  by_cases htype : u.dataType = v.dataType ∧ v.dataType = w.dataType
  · obtain ⟨hsame, hthen⟩ := then_of_or_eq hpo hqo
    refine .inl ⟨p.then q, ?_, hthen⟩
    rw [order?_of_dataType_eq htype.1] at hp
    rw [order?_of_dataType_eq htype.2] at hq
    rw [order?_of_dataType_eq (htype.1.trans htype.2)]
    exact compare?_then hp hq hsame
  · obtain ⟨hu, hv, hw⟩ := (dataType_eq_or_isNumeric huv hvw).resolve_left htype
    obtain ⟨p', hp', hpp'⟩ := exists_wide_order hu hv hp
    obtain ⟨q', hq', hqq'⟩ := exists_wide_order hv hw hq
    have hpo' : p' = o ∨ p' = .eq := hpp'.elim (fun h => h ▸ hpo) fun h => .inr h.1
    have hqo' : q' = o ∨ q' = .eq := hqq'.elim (fun h => h ▸ hqo) fun h => .inr h.1
    obtain ⟨hsame, hthen⟩ := then_of_or_eq hpo' hqo'
    have hwide := compare?_then hp' hq' hsame
    by_cases heq : p'.then q' = .eq
    · rw [heq] at hwide
      obtain ⟨rfl, rfl⟩ := Ordering.then_eq_eq.1 heq
      by_cases hint : u.dataType = .int64 ∧ w.dataType = .int64
      · have hvint : v.dataType ≠ .int64 :=
          fun h => htype ⟨hint.1.trans h.symm, h.trans hint.2.symm⟩
        have hfloat : v.isFloat = true := by
          by_contra hexact
          exact hvint (dataType_of_isNumeric (Bool.eq_false_iff.2 hexact) hv)
        refine .inr ⟨⟨hint.1, hfloat, hint.2⟩, ?_, ?_⟩
        · rwa [order?_eq_wide hu hv fun h => hvint h.2]
        · rwa [order?_eq_wide hv hw fun h => hvint h.1]
      · exact .inl ⟨.eq, (order?_eq_wide hu hw hint).trans hwide, .inr rfl⟩
    · rw [hthen.resolve_right heq] at hwide heq
      exact .inl ⟨o, order?_of_wide hu hw heq hwide, .inl rfl⟩

end Value

/-! ### Operators -/

namespace ComparisonOp

def converse : ComparisonOp → ComparisonOp
  | eq => eq
  | neq => neq
  | lt => gt
  | lte => gte
  | gt => lt
  | gte => lte

/-- The order of operands, other than their being equal, that an operator holds in. -/
def direction : ComparisonOp → Ordering
  | lt | lte => .lt
  | gt | gte => .gt
  | eq | neq => .eq

theorem holds_converse (op : ComparisonOp) (o : Option Ordering) :
    op.converse.holds (o.map Ordering.swap) = op.holds o := by
  rcases o with _ | o
  · cases op <;> rfl
  · cases op <;> cases o <;> rfl

theorem holds_iff_of_strict {op : ComparisonOp} (hop : op = lt ∨ op = gt) {o : Option Ordering} :
    op.holds o = true ↔ o = some op.direction := by
  rcases o with _ | o <;> rcases hop with rfl | rfl <;> simp [holds, direction]

theorem holds_iff_of_weak {op : ComparisonOp} (hop : op = eq ∨ op = lte ∨ op = gte)
    {o : Option Ordering} :
    op.holds o = true ↔ ∃ p, o = some p ∧ (p = op.direction ∨ p = .eq) := by
  rcases o with _ | o
  · rcases hop with rfl | rfl | rfl <;> simp [holds]
  · rcases hop with rfl | rfl | rfl <;> cases o <;> simp [holds, direction]

/-- Answers of the six operators that fit together. -/
structure Coherent (answer : ComparisonOp → Bool) (invalid : Bool) : Prop where
  neq : answer neq = !answer eq
  lte : answer lte = (answer lt || answer eq)
  gte : answer gte = (answer gt || answer eq)
  trichotomy : invalid = false → [answer lt, answer eq, answer gt].count true = 1
  unordered : invalid = true → ∀ op : ComparisonOp, answer op = decide (op = .neq)

theorem coherent_holds (o : Option Ordering) : Coherent (fun op => op.holds o) o.isNone where
  neq := by rcases o with _ | _ | _ | _ <;> rfl
  lte := by rcases o with _ | _ | _ | _ <;> rfl
  gte := by rcases o with _ | _ | _ | _ <;> rfl
  trichotomy := by
    intro hsome
    rcases o with _ | _ | _ | _
    · cases hsome
    all_goals rfl
  unordered := by
    intro hnone op
    rw [Option.isNone_iff_eq_none.1 hnone]
    rfl

end ComparisonOp

namespace BinaryOp

variable {u v w : Value}

theorem promote_of_not_alike (h : ¬ v.dataType.Alike w.dataType) : v.promote w = (v, w) := by
  have hwide : ∀ u : Value, u.dataType.isNumeric = false → u.toDouble? = none := by
    intro u hu
    cases u with
    | int64 | float32 | float64 => cases hu
    | _ => rfl
  obtain ⟨htype, hnumeric⟩ := not_or.1 h
  unfold Value.promote
  rw [if_neg htype]
  cases hv : v.dataType.isNumeric with
  | false => rw [hwide v hv]
  | true =>
    rw [hwide w (Bool.eq_false_iff.2 fun hw => hnumeric ⟨hv, hw⟩)]
    cases v.toDouble? <;> rfl

/-- What a comparison answers, in all cases. -/
theorem apply_comparison (op : ComparisonOp) (v w : Value) :
    (comparison op).apply v w =
      if v = .null ∨ w = .null then .ok .null
      else if v.dataType.Alike w.dataType then .ok (.bool (op.holds (v.order? w)))
      else .error (.typeMismatch v.typeName w.typeName) := by
  split
  · next hnull =>
    rcases hnull with rfl | rfl
    · rfl
    · cases v <;> rfl
  · next hnull =>
    obtain ⟨hv, hw⟩ := not_or.1 hnull
    split
    · next halike => exact apply_comparison_of_alike op hv hw halike
    · next halike =>
      have hnulls : (v.isNull || w.isNull) = false := by simp [← Bool.not_eq_true, hv, hw]
      rw [apply, hnulls, if_neg Bool.false_ne_true, ComparisonOp.apply, promote_of_not_alike halike]
      exact if_neg fun htype => halike (.inl htype)

theorem apply_comparison_eq_bool_iff {op : ComparisonOp} {answer : Bool} :
    (comparison op).apply v w = .ok (.bool answer) ↔
      (v ≠ .null ∧ w ≠ .null) ∧ v.dataType.Alike w.dataType ∧
        op.holds (v.order? w) = answer := by
  rw [apply_comparison]
  split
  · next hnull => exact iff_of_false (by simp) fun h => not_or.2 h.1 hnull
  · next hnull =>
    rw [and_iff_right (not_or.1 hnull)]
    split
    · next halike => simp [halike]
    · next halike => exact iff_of_false (by simp) fun h => halike h.1

/-- All six operators give a null for a null, and otherwise all are refused or none is. Their
answers fit together, and they are the same with the operands exchanged and each operator turned
round. -/
theorem apply_comparison_coherent (v w : Value) :
    (∀ op, (comparison op).apply v w = .ok .null ↔ v = .null ∨ w = .null) ∧
    (v ≠ .null → w ≠ .null →
      (∀ op, (comparison op).apply v w = .error (.typeMismatch v.typeName w.typeName) ↔
        v.dataType ≠ w.dataType ∧
          ¬ (v.dataType.isNumeric = true ∧ w.dataType.isNumeric = true)) ∧
      (v.dataType = w.dataType ∨ v.dataType.isNumeric = true ∧ w.dataType.isNumeric = true →
        ∃ answer : ComparisonOp → Bool, ComparisonOp.Coherent answer (v.isNaN || w.isNaN) ∧
          ∀ op, (comparison op).apply v w = .ok (.bool (answer op)) ∧
            (comparison op.converse).apply w v = .ok (.bool (answer op)))) := by
  refine ⟨fun op => ?_, fun hv hw => ⟨fun op => ?_, fun halike => ?_⟩⟩
  · rw [apply_comparison]
    by_cases hnull : v = .null ∨ w = .null
    · simp [hnull]
    · rw [if_neg hnull]
      split <;> simp [hnull]
  · rw [apply_comparison, if_neg (not_or.2 ⟨hv, hw⟩), ← not_or]
    change _ ↔ ¬ v.dataType.Alike w.dataType
    split
    · next halike => simp [halike]
    · next halike => simp [halike]
  · have halike : v.dataType.Alike w.dataType := halike
    have hinvalid : (v.order? w).isNone = (v.isNaN || w.isNaN) := by
      rw [Bool.eq_iff_iff, Option.isNone_iff_eq_none, Value.order?_eq_none_iff hv halike,
        Bool.or_eq_true]
    refine ⟨fun op => op.holds (v.order? w), hinvalid ▸ ComparisonOp.coherent_holds _,
      fun op => ⟨apply_comparison_of_alike op hv hw halike, ?_⟩⟩
    refine apply_comparison_eq_bool_iff.2 ⟨⟨hw, hv⟩, halike.symm, ?_⟩
    rw [Value.order?_comm, ComparisonOp.holds_converse]

/-- An invalid number is none of less, equal and greater. -/
theorem apply_comparison_coherent_invalidNumber :
    Value.int64 7 ≠ .null ∧ Value.float32 .nan ≠ .null ∧
      ((Value.int64 7).dataType.isNumeric = true ∧
        (Value.float32 .nan).dataType.isNumeric = true) ∧
      ∃ answer : ComparisonOp → Bool, ComparisonOp.Coherent answer true ∧
        ∀ op, (comparison op).apply (.int64 7) (.float32 .nan) = .ok (.bool (answer op)) ∧
          (comparison op.converse).apply (.float32 .nan) (.int64 7) = .ok (.bool (answer op)) := by
  have hv : Value.int64 7 ≠ .null := by decide
  have hw : Value.float32 .nan ≠ .null := by decide
  exact ⟨hv, hw, ⟨rfl, rfl⟩,
    ((apply_comparison_coherent (.int64 7) (.float32 .nan)).2 hv hw).2 (.inr ⟨rfl, rfl⟩)⟩

/-- The operators but that for different values are transitive. The one exception is that two
integers are both equal to a float in between and are not themselves in the order asked for, which
has to be a weak one. -/
theorem apply_comparison_trans {op : ComparisonOp} (hop : op ≠ .neq)
    (huv : (comparison op).apply u v = .ok (.bool true))
    (hvw : (comparison op).apply v w = .ok (.bool true)) :
    (comparison op).apply u w = .ok (.bool true) ∨
      (op = .eq ∨ op = .lte ∨ op = .gte) ∧
        (u.dataType = .int64 ∧ v.isFloat = true ∧ w.dataType = .int64) ∧
        (comparison .eq).apply u v = .ok (.bool true) ∧
        (comparison .eq).apply v w = .ok (.bool true) ∧
        (comparison op).apply u w = .ok (.bool false) := by
  obtain ⟨⟨hu, hv⟩, huv, h⟩ := apply_comparison_eq_bool_iff.1 huv
  obtain ⟨⟨-, hw⟩, hvw, h'⟩ := apply_comparison_eq_bool_iff.1 hvw
  have huw := huv.trans hvw
  by_cases hstrict : op = .lt ∨ op = .gt
  · left
    rw [ComparisonOp.holds_iff_of_strict hstrict] at h h'
    have hne : op.direction ≠ .eq := by rcases hstrict with rfl | rfl <;> decide
    exact apply_comparison_eq_bool_iff.2 ⟨⟨hu, hw⟩, huw,
      (ComparisonOp.holds_iff_of_strict hstrict).2 (Value.order?_trans huv hvw hne h h')⟩
  · have hweak : op = .eq ∨ op = .lte ∨ op = .gte := by cases op <;> simp_all
    cases hholds : op.holds (u.order? w) with
    | true => exact .inl (apply_comparison_eq_bool_iff.2 ⟨⟨hu, hw⟩, huw, hholds⟩)
    | false =>
      right
      rw [ComparisonOp.holds_iff_of_weak hweak] at h h'
      rcases Value.Weakly.trans huv hvw h h' with h | ⟨htypes, heq, heq'⟩
      · cases hholds.symm.trans ((ComparisonOp.holds_iff_of_weak hweak).2 h)
      · refine ⟨hweak, htypes, ?_, ?_, ?_⟩
        · exact apply_comparison_eq_bool_iff.2 ⟨⟨hu, hv⟩, huv, by rw [heq]; rfl⟩
        · exact apply_comparison_eq_bool_iff.2 ⟨⟨hv, hw⟩, hvw, by rw [heq']; rfl⟩
        · exact apply_comparison_eq_bool_iff.2 ⟨⟨hu, hw⟩, huw, hholds⟩

/-- A step between integers that floats do not see, and one that they do. -/
theorem apply_comparison_trans_stepBelowFloat :
    ComparisonOp.lt ≠ .neq ∧
      (comparison .lt).apply (.int64 9007199254740992) (.int64 9007199254740993) =
        .ok (.bool true) ∧
      (comparison .lt).apply (.int64 9007199254740993) (.float64 (.ofInt 9007199254740994)) =
        .ok (.bool true) ∧
      (comparison .lt).apply (.int64 9007199254740992) (.float64 (.ofInt 9007199254740994)) =
        .ok (.bool true) := by
  have hop : ComparisonOp.lt ≠ .neq := by decide
  have huv : (comparison .lt).apply (.int64 9007199254740992) (.int64 9007199254740993) =
      .ok (.bool true) := by decide +kernel
  have hvw : (comparison .lt).apply (.int64 9007199254740993)
      (.float64 (.ofInt 9007199254740994)) = .ok (.bool true) := by decide +kernel
  refine ⟨hop, huv, hvw, (apply_comparison_trans hop huv hvw).resolve_right fun h => ?_⟩
  rcases h.1 with h | h | h <;> cases h

/-- An integer that no wide float is equal to, the float nearest to it, and that float as an
integer. -/
theorem lte_and_eq_not_trans :
    ((comparison .lte).apply (.int64 9007199254740993) (.float64 (.ofInt 9007199254740992)) =
        .ok (.bool true) ∧
      (comparison .lte).apply (.float64 (.ofInt 9007199254740992)) (.int64 9007199254740992) =
        .ok (.bool true) ∧
      (comparison .lte).apply (.int64 9007199254740993) (.int64 9007199254740992) =
        .ok (.bool false)) ∧
    (comparison .eq).apply (.int64 9007199254740993) (.float64 (.ofInt 9007199254740992)) =
        .ok (.bool true) ∧
      (comparison .eq).apply (.float64 (.ofInt 9007199254740992)) (.int64 9007199254740992) =
        .ok (.bool true) ∧
      (comparison .eq).apply (.int64 9007199254740993) (.int64 9007199254740992) =
        .ok (.bool false) := by
  decide +kernel

end BinaryOp

end Columnar
