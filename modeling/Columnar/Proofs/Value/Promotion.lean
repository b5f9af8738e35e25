import Columnar.Operator
import Columnar.Proofs.FloatingPoint.Conversion
import Columnar.Proofs.Value.Order

/-!
# Numbers of different types

Two values can be compared when they are of one type or both are numbers. In the second case they
are brought to a common type, which for different ones is that of the wide floats. Bringing values
there keeps their order, though not strictly: an integer has a nearest float, and two integers may
share it. So a strict order seen between the promoted values was there before
(`compare?_of_promoteTo`).
-/

namespace Columnar

namespace DataType

def Alike (s t : DataType) : Prop := s = t ∨ s.isNumeric = true ∧ t.isNumeric = true

def PromotesTo (s t : DataType) : Prop := s = t ∨ s.isNumeric = true ∧ t = float64

def common (s t : DataType) : DataType := if s = t then s else float64

instance (s t : DataType) : Decidable (Alike s t) := inferInstanceAs (Decidable (_ ∨ _))

variable {s t u : DataType}

theorem Alike.symm (h : s.Alike t) : t.Alike s := h.imp Eq.symm And.symm

theorem Alike.trans (h : s.Alike t) (h' : t.Alike u) : s.Alike u := by
  rcases h with rfl | ⟨hs, ht⟩
  · exact h'
  · rcases h' with rfl | ⟨-, hu⟩
    · exact .inr ⟨hs, ht⟩
    · exact .inr ⟨hs, hu⟩

theorem Alike.isOrderable (h : s.Alike t) (ht : t.isOrderable = true) : s.isOrderable = true := by
  rcases h with rfl | ⟨hs, -⟩
  · exact ht
  · exact isOrderable_of_isNumeric hs

theorem PromotesTo.alike (h : s.PromotesTo t) : s.Alike t := by
  rcases h with rfl | ⟨hs, rfl⟩
  · exact .inl rfl
  · exact .inr ⟨hs, rfl⟩

theorem promotesTo_refl (t : DataType) : t.PromotesTo t := .inl rfl

theorem PromotesTo.trans (h : s.PromotesTo t) (h' : t.PromotesTo u) : s.PromotesTo u := by
  rcases h with rfl | ⟨hs, rfl⟩
  · exact h'
  · rcases h' with rfl | ⟨-, rfl⟩ <;> exact .inr ⟨hs, rfl⟩

theorem Alike.promotesTo_common (h : s.Alike t) : s.PromotesTo (s.common t) := by
  unfold common
  split
  · exact promotesTo_refl s
  · next hne => exact .inr ⟨(h.resolve_left hne).1, rfl⟩

theorem common_comm (s t : DataType) : s.common t = t.common s := by
  unfold common
  by_cases h : s = t
  · rw [if_pos h, if_pos h.symm, h]
  · rw [if_neg h, if_neg fun ht => h ht.symm]

theorem PromotesTo.common_eq (h : s.PromotesTo t) : t.common s = t := by
  unfold common
  split
  · rfl
  · next hne => exact (h.resolve_left fun heq => hne heq.symm).2.symm

end DataType

namespace Floating

variable {f : FloatFormat} {a b : Floating f}

theorem AtMost.compare? (h : a.AtMost b) : a.compare? b = some .lt ∨ a.compare? b = some .eq := by
  obtain ⟨x, y, hx, hy, hle⟩ := h
  unfold Floating.compare?
  rw [hx, hy]
  rcases hle.lt_or_eq with hlt | rfl
  · exact .inl (congrArg some (compare_lt_iff_lt.2 hlt))
  · exact .inr (congrArg some (compare_eq_iff_eq.2 rfl))

theorem atMost_of_compare? (h : a.compare? b = some .lt ∨ a.compare? b = some .eq) :
    a.AtMost b := by
  unfold Floating.compare? at h
  cases hx : a.key? with
  | none => simp [hx] at h
  | some x =>
    cases hy : b.key? with
    | none => simp [hx, hy] at h
    | some y =>
      refine ⟨x, y, hx, hy, ?_⟩
      rw [hx, hy] at h
      rcases h with h | h
      · exact (compare_lt_iff_lt.1 (Option.some.inj h)).le
      · exact (compare_eq_iff_eq.1 (Option.some.inj h)).le

end Floating

namespace Value

def isNaN : Value → Bool
  | float32 .nan | float64 .nan => true
  | _ => false

def promoteTo (t : DataType) (v : Value) : Value :=
  if v.dataType = t then v else (v.toDouble?.map float64).getD v

variable {u v w : Value} {s t : DataType} {o : Ordering}

theorem promoteTo_of_dataType_eq (h : v.dataType = t) : v.promoteTo t = v := if_pos h

@[simp] theorem promoteTo_null (t : DataType) : null.promoteTo t = null := by
  unfold promoteTo
  split <;> rfl

theorem exists_promoteTo_float64 (h : v.dataType.isNumeric = true) :
    ∃ x, v.toDouble? = some x ∧ v.promoteTo .float64 = float64 x := by
  cases v with
  | int64 | float32 | float64 => exact ⟨_, rfl, rfl⟩
  | _ => cases h

theorem dataType_promoteTo (h : v.dataType.PromotesTo t) : (v.promoteTo t).dataType = t := by
  rcases h with rfl | ⟨hnumeric, rfl⟩
  · rw [promoteTo_of_dataType_eq rfl]
  · obtain ⟨x, -, hx⟩ := exists_promoteTo_float64 hnumeric
    rw [hx]
    rfl

/-- Bringing a value to a type at once or in two steps is the same. -/
theorem promoteTo_promoteTo (h : v.dataType.PromotesTo s) (h' : s.PromotesTo t) :
    (v.promoteTo s).promoteTo t = v.promoteTo t := by
  rcases h with rfl | ⟨hnumeric, rfl⟩
  · rw [promoteTo_of_dataType_eq rfl]
  · obtain rfl : DataType.float64 = t := h'.elim id fun h => h.2.symm
    exact promoteTo_of_dataType_eq (dataType_promoteTo (.inr ⟨hnumeric, rfl⟩))

/-- Values that can be compared are compared in their common type. -/
theorem promote_of_alike (h : v.dataType.Alike w.dataType) :
    v.promote w = (v.promoteTo (v.dataType.common w.dataType),
      w.promoteTo (v.dataType.common w.dataType)) := by
  unfold promote DataType.common
  split
  · next htype => rw [promoteTo_of_dataType_eq rfl, promoteTo_of_dataType_eq htype.symm]
  · next hne =>
    obtain ⟨hv, hw⟩ := h.resolve_left hne
    obtain ⟨x, hx, hvx⟩ := exists_promoteTo_float64 hv
    obtain ⟨y, hy, hwy⟩ := exists_promoteTo_float64 hw
    rw [hx, hy, hvx, hwy]

theorem isNaN_promoteTo (h : v.dataType.PromotesTo t) : (v.promoteTo t).isNaN = v.isNaN := by
  rcases h with rfl | ⟨hnumeric, rfl⟩
  · rw [promoteTo_of_dataType_eq rfl]
  · cases v with
    | int64 | float64 => rfl
    | float32 x =>
      have hwiden : x.widen = .nan ↔ x = .nan := Floating.convert_eq_nan_iff
      change (float64 x.widen).isNaN = _
      cases x with
      | nan => rfl
      | number =>
        cases hx : Single.widen _ with
        | nan => exact absurd (hwiden.1 hx) (by simp)
        | number => rfl
    | _ => cases hnumeric

/-! ### Comparing -/

theorem exists_rank?_of_isNaN_eq_false (hnull : v ≠ null) (hv : v.isNaN = false) :
    ∃ a, v.rank? = some a := by
  cases v with
  | float32 x | float64 x =>
    cases x with
    | nan => cases hv
    | number => exact ⟨_, rfl⟩
  | null => exact absurd rfl hnull
  | _ => exact ⟨_, rfl⟩

theorem exists_compare? (htype : v.dataType = w.dataType) (hnull : v ≠ null)
    (hv : v.isNaN = false) (hw : w.isNaN = false) : ∃ o, v.compare? w = some o := by
  obtain ⟨a, ha⟩ := exists_rank?_of_isNaN_eq_false hnull hv
  obtain ⟨b, hb⟩ := exists_rank?_of_isNaN_eq_false (ne_null_of_dataType_eq htype hnull) hw
  rcases lt_trichotomy a b with hlt | rfl | hgt
  · exact ⟨.lt, compare?_eq_some_iff.2 ⟨htype, a, b, ha, hb, hlt⟩⟩
  · exact ⟨.eq, compare?_eq_some_iff.2 ⟨htype, a, a, ha, hb, rfl⟩⟩
  · exact ⟨.gt, compare?_eq_some_iff.2 ⟨htype, a, b, ha, hb, hgt⟩⟩

theorem isNaN_of_compare? (h : v.compare? w = some o) : v.isNaN = false ∧ w.isNaN = false := by
  obtain ⟨-, a, b, ha, hb, -⟩ := compare?_eq_some_iff.1 h
  have hrank : ∀ {u : Value} {c : Int ×ₗ String}, u.rank? = some c → u.isNaN = false := by
    intro u c hc
    cases u with
    | float32 x | float64 x =>
      cases x with
      | nan => cases hc
      | number => rfl
    | _ => rfl
  exact ⟨hrank ha, hrank hb⟩

def AtMost (v w : Value) : Prop := v.compare? w = some .lt ∨ v.compare? w = some .eq

theorem AtMost.promoteTo (h : v.AtMost w) (ht : v.dataType.PromotesTo t) :
    (v.promoteTo t).AtMost (w.promoteTo t) := by
  have htype : v.dataType = w.dataType := by
    rcases h with h | h <;> exact (compare?_eq_some_iff.1 h).1
  rcases ht with rfl | ⟨hnumeric, rfl⟩
  · rwa [promoteTo_of_dataType_eq rfl, promoteTo_of_dataType_eq htype.symm]
  · cases v with
    | int64 m =>
      cases w with
      | int64 n =>
        have hle : m.toInt ≤ n.toInt := by
          rcases h with h | h
          · exact (compare_lt_iff_lt.1 (Option.some.inj h)).le
          · exact (compare_eq_iff_eq.1 (Option.some.inj h)).le
        exact (Floating.atMost_ofInt hle).compare?
      | _ => cases htype
    | float32 x =>
      cases w with
      | float32 y =>
        have hxy : x.AtMost y := Floating.atMost_of_compare? h
        exact hxy.convert.compare?
      | _ => cases htype
    | float64 x =>
      cases w with
      | float64 y => exact h
      | _ => cases htype
    | _ => cases hnumeric

/-- A strict order between promoted values was there before. -/
theorem compare?_of_promoteTo (htype : v.dataType = w.dataType) (hnull : v ≠ null)
    (ht : v.dataType.PromotesTo t) (ho : o ≠ .eq)
    (h : (v.promoteTo t).compare? (w.promoteTo t) = some o) : v.compare? w = some o := by
  have hswap := compare?_swap h
  obtain ⟨hv, hw⟩ := isNaN_of_compare? h
  rw [isNaN_promoteTo ht] at hv
  rw [isNaN_promoteTo (htype ▸ ht)] at hw
  obtain ⟨o', ho'⟩ := exists_compare? htype hnull hv hw
  have hforward : v.AtMost w → o = .lt ∨ o = .eq := by
    intro hle
    rcases hle.promoteTo ht with hlt | heq
    · exact .inl (Option.some.inj (h.symm.trans hlt))
    · exact .inr (Option.some.inj (h.symm.trans heq))
  have hback : w.AtMost v → o.swap = .lt ∨ o.swap = .eq := by
    intro hle
    rcases hle.promoteTo (htype ▸ ht) with hlt | heq
    · exact .inl (Option.some.inj (hswap.symm.trans hlt))
    · exact .inr (Option.some.inj (hswap.symm.trans heq))
  rw [ho']
  cases o' with
  | lt => exact congrArg some ((hforward (.inl ho')).resolve_right ho).symm
  | eq =>
    have hle := hforward (.inr ho')
    have hge := hback (.inr (compare?_swap ho'))
    cases o <;> simp_all
  | gt =>
    have hge := hback (.inl (compare?_swap ho'))
    cases o <;> simp_all

end Value

/-- A comparison of two values that are no nulls, of types that can be compared. -/
theorem BinaryOp.apply_comparison_of_alike (op : ComparisonOp) {v w : Value} (hv : v ≠ .null)
    (hw : w ≠ .null) (h : v.dataType.Alike w.dataType) :
    (comparison op).apply v w =
      .ok (.bool (op.holds ((v.promoteTo (v.dataType.common w.dataType)).compare?
        (w.promoteTo (v.dataType.common w.dataType))))) := by
  have hnull : (v.isNull || w.isNull) = false := by
    rw [Bool.or_eq_false_iff]
    exact ⟨Bool.eq_false_iff.2 (mt Value.isNull_iff.1 hv),
      Bool.eq_false_iff.2 (mt Value.isNull_iff.1 hw)⟩
  rw [apply, hnull, if_neg Bool.false_ne_true, ComparisonOp.apply, Value.promote_of_alike h]
  refine if_pos ?_
  rw [Value.dataType_promoteTo h.promotesTo_common, DataType.common_comm,
    Value.dataType_promoteTo h.symm.promotesTo_common]

end Columnar
