import Columnar.Proofs.Value.Promotion

/-!
# Equality and hashes

Values are equal when they compare as equal, or when both are null. So equality is symmetric and
transitive, and a value fails to be equal to itself only if it is an invalid number
(`equal_self_iff`). The hash of a value is taken from its type and content. Equal values have the
same content but for one case, the two zeros of a float type, which are told apart by their bits
(`hashKey_eq_iff`). Hashing and equality fit together on all values that are neither.
-/

namespace Columnar

namespace Floating

variable {f : FloatFormat}

theorem eq_or_zero_of_compare? {x y : Floating f} (h : x.compare? y = some .eq) :
    x = y ∨ ∃ negative, x = zero negative ∧ y = zero (!negative) := by
  cases x with
  | nan => cases h
  | number s c hc =>
    cases y with
    | nan => cases h
    | number t d hd =>
      have hkeys : (if s then -(c : Int) else c) = if t then -(d : Int) else d :=
        compare_eq_iff_eq.1 (Option.some.inj h)
      by_cases hsign : s = t
      · subst hsign
        have hcode : c = d := by cases s <;> simp_all
        subst hcode
        exact .inl rfl
      · obtain rfl : t = !s := by cases s <;> cases t <;> simp_all
        obtain ⟨rfl, rfl⟩ : c = 0 ∧ d = 0 := by cases s <;> simp at hkeys <;> omega
        exact .inr ⟨s, rfl, rfl⟩

theorem bits_zero_ne (negative : Bool) :
    (zero negative : Floating f).bits ≠ (zero (!negative) : Floating f).bits := by
  have hsign : 0 < f.signBit := Nat.mul_pos (by omega) f.binade_pos
  cases negative <;> simp [zero, bits] <;> omega

end Floating

namespace Value

variable {u v w : Value}

/-- Values that are no floats are equal only to themselves. -/
theorem equal_iff_eq (hexact : v.isFloat = false) : v.equal w = true ↔ v = w := by
  cases v with
  | float32 | float64 => cases hexact
  | _ => cases w <;> simp [equal]

theorem equal_iff_compare? (hfloat : v.isFloat = true) :
    v.equal w = true ↔ v.compare? w = some .eq := by
  cases v with
  | float32 x =>
    cases w with
    | float32 y => exact beq_iff_eq
    | _ => simp [equal, compare?]
  | float64 x =>
    cases w with
    | float64 y => exact beq_iff_eq
    | _ => simp [equal, compare?]
  | _ => cases hfloat

theorem equal_iff : v.equal w = true ↔ v.compare? w = some .eq ∨ v = null ∧ w = null := by
  cases hfloat : v.isFloat with
  | true =>
    rw [equal_iff_compare? hfloat]
    refine (or_iff_left fun hnull => ?_).symm
    rw [hnull.1] at hfloat
    cases hfloat
  | false =>
    rw [equal_iff_eq hfloat]
    constructor
    · rintro rfl
      by_cases hnull : v = null
      · exact .inr ⟨hnull, hnull⟩
      · obtain ⟨a, ha⟩ := exists_rank? hnull hfloat
        exact .inl (compare?_eq_some_iff.2 ⟨rfl, a, a, ha, ha, rfl⟩)
    · rintro (heq | ⟨rfl, rfl⟩)
      · obtain ⟨htype, a, b, ha, hb, rfl⟩ := compare?_eq_some_iff.1 heq
        exact eq_of_rank?_eq htype hfloat (ha.trans hb.symm)
      · rfl

theorem equal_of_compare? (h : v.compare? w = some .eq) : v.equal w = true := equal_iff.2 (.inl h)

theorem isNaN_of_equal (h : v.equal w = true) : v.isNaN = false ∧ w.isNaN = false := by
  rcases equal_iff.1 h with h | ⟨rfl, rfl⟩
  · exact isNaN_of_compare? h
  · exact ⟨rfl, rfl⟩

def Same (v w : Value) : Prop := v.equal w = true ∨ v.isNaN = true ∧ w.isNaN = true

theorem Same.isNaN_eq (h : v.Same w) : v.isNaN = w.isNaN := by
  rcases h with h | ⟨hv, hw⟩
  · obtain ⟨hv, hw⟩ := isNaN_of_equal h
    rw [hv, hw]
  · rw [hv, hw]

/-! ### An equivalence -/

theorem equal_self_iff : v.equal v = true ↔ v.isNaN = false := by
  refine ⟨fun h => (isNaN_of_equal h).1, fun hvalid => equal_iff.2 ?_⟩
  by_cases hnull : v = null
  · exact .inr ⟨hnull, hnull⟩
  · obtain ⟨o, ho⟩ := exists_compare? rfl hnull hvalid hvalid
    have heq : o = .eq := by
      by_contra hne
      exact compare?_self_ne hne ho
    exact .inl (heq ▸ ho)

theorem equal_symm (h : v.equal w = true) : w.equal v = true :=
  equal_iff.2 ((equal_iff.1 h).imp compare?_swap And.symm)

theorem equal_trans (huv : u.equal v = true) (hvw : v.equal w = true) : u.equal w = true := by
  rcases equal_iff.1 huv with huv | ⟨rfl, rfl⟩
  · rcases equal_iff.1 hvw with hvw | ⟨rfl, rfl⟩
    · exact equal_iff.2 (.inl (compare?_trans huv hvw))
    · cases u <;> cases huv
  · exact hvw

/-! ### Hashes -/

inductive OppositeZeros : Value → Value → Prop where
  | float32 (negative : Bool) : OppositeZeros (float32 (.zero negative)) (float32 (.zero !negative))
  | float64 (negative : Bool) : OppositeZeros (float64 (.zero negative)) (float64 (.zero !negative))

theorem eq_or_oppositeZeros (h : v.equal w = true) : v = w ∨ OppositeZeros v w := by
  cases hfloat : v.isFloat with
  | false => exact .inl ((equal_iff_eq hfloat).1 h)
  | true =>
    have heq := (equal_iff_compare? hfloat).1 h
    have htype := (compare?_eq_some_iff.1 heq).1
    cases v with
    | float32 x =>
      cases w with
      | float32 y =>
        rcases Floating.eq_or_zero_of_compare? heq with rfl | ⟨negative, rfl, rfl⟩
        · exact .inl rfl
        · exact .inr (.float32 negative)
      | _ => cases htype
    | float64 x =>
      cases w with
      | float64 y =>
        rcases Floating.eq_or_zero_of_compare? heq with rfl | ⟨negative, rfl, rfl⟩
        · exact .inl rfl
        · exact .inr (.float64 negative)
      | _ => cases htype
    | _ => cases hfloat

theorem OppositeZeros.hashKey_ne (h : OppositeZeros v w) : v.hashKey ≠ w.hashKey := by
  cases h with
  | float32 negative =>
    intro h
    exact Floating.bits_zero_ne negative (by simpa [hashKey, dataType] using h)
  | float64 negative =>
    intro h
    exact Floating.bits_zero_ne negative (by simpa [hashKey, dataType] using h)

theorem hashKey_eq_iff (h : v.equal w = true) :
    v.hashKey = w.hashKey ↔ ¬ OppositeZeros v w := by
  refine ⟨fun hkey hzeros => hzeros.hashKey_ne hkey, fun hzeros => ?_⟩
  rw [(eq_or_oppositeZeros h).resolve_right hzeros]

/-- Equality is symmetric and transitive, and reflexive but for invalid numbers. Equal values have
equal hashes but for the two zeros of a float type. -/
theorem equal_and_hashKey (u v w : Value) :
    (u.equal u = true ↔ u.isNaN = false) ∧
    (u.equal v = true → v.equal u = true) ∧
    (u.equal v = true → v.equal w = true → u.equal w = true) ∧
    (u.equal v = true → (u.hashKey = v.hashKey ↔ ¬ OppositeZeros u v)) :=
  ⟨equal_self_iff, equal_symm, equal_trans, hashKey_eq_iff⟩

theorem equal_and_hashKey_signedZeros :
    (float64 (.zero true)).equal (float64 (.zero false)) = true ∧
      (float64 (.zero false)).equal (float64 (.zero true)) = true ∧
      (float64 (.zero true)).equal (float64 (.zero true)) = true ∧
      ((float64 (.zero true)).hashKey = (float64 (.zero false)).hashKey ↔
        ¬ OppositeZeros (float64 (.zero true)) (float64 (.zero false))) := by
  have hzeros : (float64 (.zero true)).equal (float64 (.zero false)) = true := by decide
  obtain ⟨-, hsymm, htrans, hkey⟩ :=
    equal_and_hashKey (float64 (.zero true)) (float64 (.zero false)) (float64 (.zero true))
  exact ⟨hzeros, hsymm hzeros, htrans hzeros (hsymm hzeros), hkey hzeros⟩

/-- An invalid number is not equal to itself, and equal zeros have different hashes. -/
theorem nan_and_zeros_unlawful :
    (float64 .nan).equal (float64 .nan) = false ∧
      (float64 (.zero false)).equal (float64 (.zero true)) = true ∧
      (float64 (.zero false)).hashKey ≠ (float64 (.zero true)).hashKey := by
  decide

end Value

end Columnar
