import Columnar.FloatingPoint.Format
import Mathlib.Tactic.Linarith
import Mathlib.Tactic.Ring

/-!
# Rounding to nearest

Everything later proofs know of rounding is said by midpoints. A magnitude below the midpoint of two
neighbouring codes does not round above the lower one, and a magnitude above it does not round below
the upper one (`nearestCode_le_of_lt_midpoint`, `lt_nearestCode_of_midpoint_lt`). So a magnitude
that is itself a code's rounds to that code, and rounding keeps the order of magnitudes. What stands
behind it is that a code is a significand and an exponent in one number: the codes of one binade
count the multiples of one power of two.
-/

namespace Columnar

/-! ### Whole numbers -/

section

variable {num den : Nat}

/-- What is rounded lies at most half a step above the result. -/
theorem two_mul_le_roundHalfEven (num : Nat) (hden : 0 < den) :
    2 * num ≤ (2 * roundHalfEven num den + 1) * den := by
  have hnum := Nat.div_add_mod num den
  have hrest := Nat.mod_lt num hden
  have hexpand : ∀ n, (2 * n + 1) * den = 2 * (den * n) + den := fun n => by ring
  unfold roundHalfEven
  dsimp only
  split
  · rw [hexpand]
    omega
  · split
    · rw [hexpand, Nat.mul_add]
      omega
    · rw [hexpand, Nat.mul_add]
      omega

theorem roundHalfEven_mul_le (num : Nat) (hden : 0 < den) :
    2 * (roundHalfEven num den * den) ≤ 2 * num + den := by
  have hnum := Nat.div_add_mod num den
  have hrest := Nat.mod_lt num hden
  unfold roundHalfEven
  dsimp only
  split
  · rw [Nat.mul_comm _ den]
    omega
  · split
    · rw [Nat.mul_comm _ den, Nat.mul_add]
      omega
    · have hparity : num / den % 2 = 0 ∨ num / den % 2 = 1 := Nat.mod_two_eq_zero_or_one _
      rcases hparity with hparity | hparity <;> rw [hparity, Nat.mul_comm _ den, Nat.mul_add] <;>
        omega

theorem roundHalfEven_mul_right {k : Nat} (hk : 0 < k) :
    roundHalfEven (num * k) (den * k) = roundHalfEven num den := by
  have hless : ∀ a b : Nat, 2 * (a * k) < b * k ↔ 2 * a < b := fun a b => by
    rw [← Nat.mul_assoc, Nat.mul_lt_mul_right hk]
  have hmore : ∀ a b : Nat, b * k < 2 * (a * k) ↔ b < 2 * a := fun a b => by
    rw [← Nat.mul_assoc, Nat.mul_lt_mul_right hk]
  unfold roundHalfEven
  rw [Nat.mul_div_mul_right _ _ hk, Nat.mul_mod_mul_right]
  simp only [hless, hmore]

end

namespace FloatFormat

variable (f : FloatFormat)

theorem binade_pos : 0 < f.binade := Nat.pow_pos (by decide)

theorem one_pos : 0 < f.one := Nat.pow_pos (by decide)

theorem infinityCode_pos : 0 < f.infinityCode := Nat.mul_pos (Nat.succ_pos _) f.binade_pos

/-! ### Codes -/

/-- A code in parts: so many multiples of a power of two. Only at the bottom are there fewer of them
than codes in a binade. -/
theorem exists_significand (code : Nat) :
    ∃ m e, code = m + e * f.binade ∧ m < 2 * f.binade ∧ (e = 0 ∨ f.binade ≤ m) := by
  have hparts := Nat.div_add_mod code f.binade
  have hrest := Nat.mod_lt code f.binade_pos
  rw [Nat.mul_comm] at hparts
  rcases Nat.eq_zero_or_pos (code / f.binade) with hzero | hpos
  · rw [hzero] at hparts
    exact ⟨code, 0, by omega, by omega, .inl rfl⟩
  · obtain ⟨e, he⟩ := Nat.exists_eq_add_one.2 hpos
    rw [he, Nat.add_mul] at hparts
    exact ⟨f.binade + code % f.binade, e, by omega, by omega, .inr (by omega)⟩

/-- The magnitude of a code in parts. A full binade is the start of the next one. -/
theorem units_add_mul {m e : Nat} (hm : m ≤ 2 * f.binade) (he : e = 0 ∨ f.binade ≤ m) :
    f.units (m + e * f.binade) = m * 2 ^ e := by
  have hpos := f.binade_pos
  have hpow : ∀ n : Nat, Nat.pow 2 n = 2 ^ n := fun _ => rfl
  unfold units
  rw [Nat.add_mul_div_right _ _ hpos, Nat.add_mul_mod_self_right]
  dsimp only
  rcases Nat.lt_or_ge m f.binade with hsmall | hlarge
  · obtain rfl : e = 0 := by omega
    rw [Nat.div_eq_of_lt hsmall, if_pos rfl, Nat.mod_eq_of_lt hsmall, Nat.pow_zero, Nat.mul_one]
  · rcases Nat.lt_or_ge m (2 * f.binade) with hless | hfull
    · have hquotient : m / f.binade = 1 := Nat.div_eq_of_lt_le (by omega) (by omega)
      have hrest : f.binade + m % f.binade = m := by
        have := Nat.div_add_mod m f.binade
        rw [hquotient] at this
        omega
      rw [hquotient, hrest, if_neg (by omega), hpow, Nat.add_sub_cancel_left]
    · obtain rfl : m = 2 * f.binade := by omega
      rw [Nat.mul_div_cancel _ hpos, Nat.mul_mod_left, if_neg (by omega), hpow,
        show 2 + e - 1 = e + 1 by omega]
      ring

/-- Neighbouring codes: how far apart their magnitudes are, and that this is no less than the
precision of the format asks for. -/
theorem exists_units_succ (code : Nat) :
    ∃ gap, 0 < gap ∧ f.units (code + 1) = f.units code + gap ∧
      f.units (code + 1) ≤ 2 * f.binade * gap := by
  obtain ⟨m, e, rfl, hm, he⟩ := f.exists_significand code
  refine ⟨2 ^ e, Nat.pow_pos (by decide), ?_, ?_⟩
  · rw [show m + e * f.binade + 1 = m + 1 + e * f.binade by omega,
      f.units_add_mul hm (he.imp_right (by omega)), f.units_add_mul hm.le he, Nat.succ_mul]
  · rw [show m + e * f.binade + 1 = m + 1 + e * f.binade by omega,
      f.units_add_mul hm (he.imp_right (by omega))]
    exact Nat.mul_le_mul_right _ hm

theorem units_strictMono : StrictMono f.units :=
  strictMono_nat_of_lt_succ fun code => by
    obtain ⟨gap, hgap, hnext, -⟩ := f.exists_units_succ code
    omega

theorem units_mono : Monotone f.units := f.units_strictMono.monotone

@[simp] theorem units_zero : f.units 0 = 0 := by
  unfold units
  simp

/-- Every significand, shifted by any number of places, is a magnitude. -/
theorem exists_units_eq {m : Nat} (hm : m ≤ 2 * f.binade) (e : Nat) :
    ∃ code, f.units code = m * 2 ^ e := by
  induction e generalizing m with
  | zero => exact ⟨m + 0 * f.binade, f.units_add_mul hm (.inl rfl)⟩
  | succ e ih =>
    rcases Nat.lt_or_ge m f.binade with hsmall | hlarge
    · obtain ⟨code, hcode⟩ := ih (m := 2 * m) (by omega)
      exact ⟨code, by rw [hcode, Nat.pow_succ]; ring⟩
    · exact ⟨m + (e + 1) * f.binade, f.units_add_mul hm (.inr hlarge)⟩

theorem units_infinityCode {f : FloatFormat} (hprecision : 2 ≤ f.precision) :
    f.units f.infinityCode = f.one * 2 ^ (f.bias + 1) := by
  have hcode : f.infinityCode = f.binade + 2 * f.bias * f.binade := by
    unfold infinityCode
    ring
  rw [hcode, f.units_add_mul (by omega) (.inr (Nat.le_refl _))]
  change 2 ^ f.fractionBits * _ = 2 ^ f.scale * _
  rw [← Nat.pow_add, ← Nat.pow_add]
  congr 1
  unfold fractionBits scale
  omega

/-! ### The nearest code -/

/-- How far the significand of a magnitude is shifted. -/
def shift (num den : Nat) : Nat := Nat.log2 (num / den) - f.fractionBits

/-- The code nearest to a magnitude if there were no end to them. -/
def nearestCode (num den : Nat) : Nat :=
  roundHalfEven num (den * 2 ^ f.shift num den) + f.shift num den * f.binade

theorem round_eq_min (num den : Nat) :
    f.round num den = min (f.nearestCode num den) f.infinityCode := rfl

variable {den : Nat}

theorem lt_of_shift (num : Nat) (hden : 0 < den) :
    num < 2 * f.binade * (den * 2 ^ f.shift num den) := by
  have hlog : num / den < 2 ^ (f.fractionBits + 1 + f.shift num den) :=
    Nat.lt_of_lt_of_le Nat.lt_log2_self (Nat.pow_le_pow_right (by decide) (by unfold shift; omega))
  have hbinade : (2 : Nat) ^ (f.fractionBits + 1 + f.shift num den) =
      2 * f.binade * 2 ^ f.shift num den := by
    rw [Nat.pow_add, Nat.pow_succ, Nat.mul_comm (2 ^ f.fractionBits)]
    rfl
  calc num < den * (num / den + 1) := Nat.lt_mul_div_succ num hden
    _ ≤ den * (2 * f.binade * 2 ^ f.shift num den) := Nat.mul_le_mul_left _ (hbinade ▸ hlog)
    _ = 2 * f.binade * (den * 2 ^ f.shift num den) := by ring

theorem le_of_shift_pos {num den : Nat} (hshift : 0 < f.shift num den) :
    f.binade * (den * 2 ^ f.shift num den) ≤ num := by
  have hlog : Nat.log2 (num / den) = f.fractionBits + f.shift num den := by
    unfold shift at hshift ⊢
    omega
  have hne : num / den ≠ 0 := by
    intro hzero
    rw [hzero, Nat.log2_zero] at hlog
    omega
  have hself := Nat.log2_self_le hne
  rw [hlog, Nat.pow_add] at hself
  calc f.binade * (den * 2 ^ f.shift num den)
      = den * (2 ^ f.fractionBits * 2 ^ f.shift num den) := by
        rw [Nat.mul_left_comm]
        rfl
    _ ≤ den * (num / den) := Nat.mul_le_mul_left _ hself
    _ ≤ num := Nat.mul_div_le num den

theorem significand_bounds (num : Nat) (hden : 0 < den) :
    roundHalfEven num (den * 2 ^ f.shift num den) ≤ 2 * f.binade ∧
      (f.shift num den = 0 ∨ f.binade ≤ roundHalfEven num (den * 2 ^ f.shift num den)) := by
  have hstep : 0 < den * 2 ^ f.shift num den := Nat.mul_pos hden (Nat.pow_pos (by decide))
  have hlow := two_mul_le_roundHalfEven num hstep
  have hhigh := roundHalfEven_mul_le num hstep
  have hlt := f.lt_of_shift num hden
  constructor
  · by_contra! hlarge
    have := Nat.mul_le_mul_right (den * 2 ^ f.shift num den) (Nat.succ_le_of_lt hlarge)
    rw [Nat.succ_mul] at this
    omega
  · rcases Nat.eq_zero_or_pos (f.shift num den) with hzero | hpos
    · exact .inl hzero
    · refine .inr ?_
      have hle := f.le_of_shift_pos hpos
      by_contra! hsmall
      have := Nat.mul_le_mul_right (den * 2 ^ f.shift num den) (Nat.succ_le_of_lt hsmall)
      rw [Nat.succ_mul] at this
      rw [Nat.add_mul, Nat.mul_assoc, Nat.one_mul] at hlow
      omega

theorem units_nearestCode (num : Nat) (hden : 0 < den) :
    f.units (f.nearestCode num den) =
      roundHalfEven num (den * 2 ^ f.shift num den) * 2 ^ f.shift num den := by
  obtain ⟨hm, he⟩ := f.significand_bounds num hden
  exact f.units_add_mul hm he

/-! ### Midpoints -/

variable {f} {num code : Nat}

/-- A magnitude below a midpoint does not round above it. -/
theorem nearestCode_le_of_lt_midpoint (hden : 0 < den)
    (h : 2 * num < (f.units code + f.units (code + 1)) * den) : f.nearestCode num den ≤ code := by
  by_contra! habove
  have hnearest := f.units_nearestCode num hden
  have hupper := f.units_mono (show code + 1 ≤ f.nearestCode num den from habove)
  obtain ⟨hm, he⟩ := f.significand_bounds num hden
  have hrounded := roundHalfEven_mul_le num
    (Nat.mul_pos hden (Nat.pow_pos (n := f.shift num den) (by decide : 0 < 2)))
  unfold nearestCode at habove hnearest hupper
  have hle : 0 < f.shift num den → _ := f.le_of_shift_pos
  generalize f.shift num den = e at *
  generalize roundHalfEven num (den * 2 ^ e) = m at *
  rw [hnearest] at hupper
  -- Right after a power of two the codes below are closer, but then the magnitude is no smaller.
  by_cases hpower : 0 < e ∧ m = f.binade
  · obtain ⟨hpos, rfl⟩ := hpower
    have hlower := f.units_mono (show code ≤ code + 1 by omega)
    have hsum : (f.units code + f.units (code + 1)) * den ≤ 2 * (f.binade * (den * 2 ^ e)) := by
      calc (f.units code + f.units (code + 1)) * den
          ≤ (f.binade * 2 ^ e + f.binade * 2 ^ e) * den := Nat.mul_le_mul_right _ (by omega)
        _ = 2 * (f.binade * (den * 2 ^ e)) := by ring
    have := hle hpos
    omega
  · have hbinade := f.binade_pos
    obtain ⟨k, rfl⟩ : ∃ k, m = k + 1 := Nat.exists_eq_add_one.2 (by
      rcases he with rfl | he <;> omega)
    have hbelow : f.units (k + e * f.binade) = k * 2 ^ e := f.units_add_mul (by omega) (by omega)
    have hlower := f.units_mono (show code ≤ k + e * f.binade by omega)
    have hsum : (f.units code + f.units (code + 1)) * den ≤ (k + (k + 1)) * (den * 2 ^ e) := by
      calc (f.units code + f.units (code + 1)) * den
          ≤ (k * 2 ^ e + (k + 1) * 2 ^ e) * den := Nat.mul_le_mul_right _ (by omega)
        _ = (k + (k + 1)) * (den * 2 ^ e) := by ring
    have hexpand : (k + (k + 1)) * (den * 2 ^ e) + den * 2 ^ e = 2 * ((k + 1) * (den * 2 ^ e)) := by
      ring
    omega

/-- A magnitude above a midpoint does not round below it. -/
theorem lt_nearestCode_of_midpoint_lt (hden : 0 < den)
    (h : (f.units code + f.units (code + 1)) * den < 2 * num) : code < f.nearestCode num den := by
  by_contra! hbelow
  have hnearest := f.units_nearestCode num hden
  have hlower := f.units_mono hbelow
  obtain ⟨hm, he⟩ := f.significand_bounds num hden
  have hrounded := two_mul_le_roundHalfEven num
    (Nat.mul_pos hden (Nat.pow_pos (n := f.shift num den) (by decide : 0 < 2)))
  unfold nearestCode at hbelow hnearest hlower
  have hlt := f.lt_of_shift num hden
  generalize f.shift num den = e at *
  generalize roundHalfEven num (den * 2 ^ e) = m at *
  rw [hnearest] at hlower
  -- A full significand is the largest magnitude that is shifted this far.
  rcases Nat.lt_or_ge m (2 * f.binade) with hless | hfull
  · have habove : f.units (m + 1 + e * f.binade) = (m + 1) * 2 ^ e :=
      f.units_add_mul hless (he.imp_right (by omega))
    have hupper := f.units_mono (show m + 1 + e * f.binade ≤ code + 1 by omega)
    have hsum : (2 * m + 1) * (den * 2 ^ e) ≤ (f.units code + f.units (code + 1)) * den := by
      calc (2 * m + 1) * (den * 2 ^ e) = (m * 2 ^ e + (m + 1) * 2 ^ e) * den := by ring
        _ ≤ (f.units code + f.units (code + 1)) * den := Nat.mul_le_mul_right _ (by omega)
    omega
  · obtain rfl : m = 2 * f.binade := by omega
    have hupper := f.units_mono (show code ≤ code + 1 by omega)
    have hsum : 2 * (2 * f.binade * (den * 2 ^ e)) ≤
        (f.units code + f.units (code + 1)) * den := by
      calc 2 * (2 * f.binade * (den * 2 ^ e))
          = (2 * f.binade * 2 ^ e + 2 * f.binade * 2 ^ e) * den := by ring
        _ ≤ (f.units code + f.units (code + 1)) * den := Nat.mul_le_mul_right _ (by omega)
    omega

/-- A magnitude nearer to a code's than to its neighbours' rounds to that code. -/
theorem nearestCode_eq (hden : 0 < den) (hlow : (f.units code + f.units (code + 1)) * den < 2 * num)
    (hhigh : 2 * num < (f.units (code + 1) + f.units (code + 2)) * den) :
    f.nearestCode num den = code + 1 :=
  Nat.le_antisymm (nearestCode_le_of_lt_midpoint hden hhigh)
    (lt_nearestCode_of_midpoint_lt hden hlow)

theorem nearestCode_units (hden : 0 < den) (code : Nat) :
    f.nearestCode (f.units code * den) den = code := by
  have hstep : ∀ c, f.units c * den < f.units (c + 1) * den :=
    fun c => Nat.mul_lt_mul_of_pos_right (f.units_strictMono c.lt_succ_self) hden
  have habove := hstep code
  refine Nat.le_antisymm (nearestCode_le_of_lt_midpoint hden (by rw [Nat.add_mul]; omega)) ?_
  cases code with
  | zero => exact Nat.zero_le _
  | succ below =>
    have hbelow := hstep below
    exact lt_nearestCode_of_midpoint_lt hden (by rw [Nat.add_mul]; omega)

theorem nearestCode_mono {num' : Nat} (hden : 0 < den) (h : num ≤ num') :
    f.nearestCode num den ≤ f.nearestCode num' den := by
  by_contra! hless
  obtain ⟨code, hcode⟩ : ∃ code, f.nearestCode num den = code + 1 :=
    Nat.exists_eq_add_one.2 (by omega)
  have hhigh : (f.units code + f.units (code + 1)) * den ≤ 2 * num := by
    by_contra! hmid
    have := nearestCode_le_of_lt_midpoint hden hmid
    omega
  have hlow : 2 * num' ≤ (f.units code + f.units (code + 1)) * den := by
    by_contra! hmid
    have := lt_nearestCode_of_midpoint_lt hden hmid
    omega
  -- Both magnitudes are the midpoint.
  obtain rfl : num = num' := by omega
  exact Nat.lt_irrefl _ hless

theorem round_mono {num' : Nat} (hden : 0 < den) (h : num ≤ num') :
    f.round num den ≤ f.round num' den :=
  min_le_min_right _ (nearestCode_mono hden h)

theorem round_mul_right {k : Nat} (hk : 0 < k) :
    f.round (num * k) (den * k) = f.round num den := by
  have hshift : f.shift (num * k) (den * k) = f.shift num den := by
    unfold shift
    rw [Nat.mul_div_mul_right _ _ hk]
  rw [round_eq_min, round_eq_min, nearestCode, nearestCode, hshift, Nat.mul_right_comm,
    roundHalfEven_mul_right hk]

theorem round_zero (hden : 0 < den) : f.round 0 den = 0 := by
  have hzero := nearestCode_units (f := f) hden 0
  rw [units_zero, Nat.zero_mul] at hzero
  rw [round_eq_min, hzero, Nat.zero_min]

end FloatFormat

end Columnar
