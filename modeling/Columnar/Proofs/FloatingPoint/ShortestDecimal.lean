import Columnar.FloatingPoint.Decimal
import Columnar.Proofs.FloatingPoint.Rounding

/-!
# Shortest decimals read back

What a decimal reads as depends on its value only (`readDecimal_congr`): the exponents that settle
the answer on their own settle it as rounding does. A decimal that the search takes reads as the
magnitude by construction, so it remains that the search takes one. It does when its grid is finer
than half the gap to the next magnitude, which is the case within as many steps as a significand has
bits: each step divides by ten and needs less than four bits. As the search starts just above the
magnitude, the same count bounds the digits of what it takes.
-/

namespace Columnar

/-! ### Powers of two and of ten -/

theorem ten_pow_le_two_pow {e q : Nat} (h : 10 * e ≤ 3 * q) : 10 ^ e ≤ 2 ^ q := by
  rw [← Nat.pow_le_pow_iff_left (show 3 ≠ 0 by decide)]
  calc (10 ^ e) ^ 3 = 1000 ^ e := by rw [← Nat.pow_mul, Nat.mul_comm, Nat.pow_mul]
    _ ≤ 1024 ^ e := Nat.pow_le_pow_left (by decide) e
    _ = 2 ^ (10 * e) := by rw [Nat.pow_mul]
    _ ≤ 2 ^ (3 * q) := Nat.pow_le_pow_right (by decide) h
    _ = (2 ^ q) ^ 3 := by rw [← Nat.pow_mul, Nat.mul_comm]

theorem two_pow_le_ten_pow {q e : Nat} (h : 4 * q ≤ 13 * e) : 2 ^ q ≤ 10 ^ e := by
  rw [← Nat.pow_le_pow_iff_left (show 4 ≠ 0 by decide)]
  calc (2 ^ q) ^ 4 = 2 ^ (4 * q) := by rw [← Nat.pow_mul, Nat.mul_comm]
    _ ≤ 2 ^ (13 * e) := Nat.pow_le_pow_right (by decide) h
    _ = 8192 ^ e := by rw [Nat.pow_mul]
    _ ≤ 10000 ^ e := Nat.pow_le_pow_left (by decide) e
    _ = (10 ^ e) ^ 4 := by rw [← Nat.pow_mul, Nat.mul_comm, Nat.pow_mul]

/-! ### The value of a decimal -/

namespace Decimal

def num (d : Decimal) : Nat := d.digits * 10 ^ d.exponent.toNat

def den (d : Decimal) : Nat := 10 ^ (-d.exponent).toNat

theorem den_pos (d : Decimal) : 0 < d.den := Nat.pow_pos (by decide)

end Decimal

namespace FloatFormat

variable {f : FloatFormat} {code : Nat} {e : Int} {tie : Tie}

inductive IsStandard : FloatFormat → Prop where
  | single : IsStandard single
  | double : IsStandard double

/-- All that the powers of ten below depend on. -/
theorem IsStandard.bounds (hf : f.IsStandard) : 24 ≤ f.precision ∧ f.precision ≤ 53 ∧
    f.bias ≤ 1023 ∧ f.scale = f.bias + f.precision - 2 := by
  cases hf <;> decide

theorem IsStandard.two_le_precision (hf : f.IsStandard) : 2 ≤ f.precision := by
  cases hf <;> decide

theorem infinityCode_le_nearestCode (hprecision : 2 ≤ f.precision) {num : Nat}
    (h : f.one * 2 ^ (f.bias + 1) ≤ num) : f.infinityCode ≤ f.nearestCode num 1 := by
  obtain ⟨last, hlast⟩ := Nat.exists_eq_add_one.2 f.infinityCode_pos
  rw [← units_infinityCode hprecision, hlast] at h
  have hstep := f.units_strictMono (Nat.lt_add_one last)
  have hless : last < f.nearestCode num 1 :=
    lt_nearestCode_of_midpoint_lt Nat.one_pos (by omega)
  omega

/-- Reading is rounding. -/
theorem readDecimal_eq_round (hprecision : 2 ≤ f.precision) (d : Decimal) :
    f.readDecimal d = f.round (d.num * f.one) d.den := by
  obtain ⟨digits, exponent⟩ := d
  unfold readDecimal Decimal.num Decimal.den
  cases exponent with
  | ofNat e =>
    have htoNat : (-(Int.ofNat e)).toNat = 0 := by simp
    simp only [Int.ofNat_eq_natCast, Int.toNat_natCast] at htoNat ⊢
    rw [htoNat, Nat.pow_zero]
    split
    · next hzero => rw [hzero, Nat.zero_mul, Nat.zero_mul, f.round_zero Nat.one_pos]
    · next hne =>
      split
      · next hlarge =>
        have hpow : 2 ^ (f.bias + 1) ≤ digits * 10 ^ e :=
          calc 2 ^ (f.bias + 1) ≤ 10 ^ (f.bias + 1) := Nat.pow_le_pow_left (by decide) _
            _ ≤ 10 ^ e := Nat.pow_le_pow_right (by decide) hlarge
            _ ≤ digits * 10 ^ e := Nat.le_mul_of_pos_left _ (Nat.pos_of_ne_zero hne)
        have hnum := Nat.mul_le_mul_left f.one hpow
        rw [round_eq_min, Nat.min_eq_right]
        exact infinityCode_le_nearestCode hprecision (Nat.mul_comm f.one _ ▸ hnum)
      · rfl
  | negSucc e =>
    have hexponent : (-(Int.negSucc e)).toNat = e + 1 := by simp
    rw [hexponent, show (Int.negSucc e).toNat = 0 from rfl, Nat.pow_zero, Nat.mul_one]
    dsimp only
    split
    · next hsmall =>
      have hone : f.units 0 < f.units 1 := f.units_strictMono Nat.one_pos
      have hmid : 2 * (digits * f.one) < (f.units 0 + f.units 1) * 10 ^ (e + 1) := by
        calc 2 * (digits * f.one) < 2 * (2 ^ (digits.log2 + 1) * f.one) := by
              have hlog := Nat.mul_lt_mul_of_pos_right (@Nat.lt_log2_self digits) f.one_pos
              omega
          _ = 2 ^ (digits.log2 + f.scale + 2) := by
              change 2 * (_ * 2 ^ f.scale) = _
              ring
          _ ≤ 2 ^ (3 * e) := Nat.pow_le_pow_right (by decide) hsmall
          _ = 8 ^ e := by rw [Nat.pow_mul]
          _ ≤ 10 ^ (e + 1) :=
              (Nat.pow_le_pow_left (by decide) e).trans
                (Nat.pow_le_pow_right (by decide) (by omega))
          _ ≤ (f.units 0 + f.units 1) * 10 ^ (e + 1) := Nat.le_mul_of_pos_left _ (by omega)
      have hzero := nearestCode_le_of_lt_midpoint (Nat.pow_pos (by decide)) hmid
      rw [round_eq_min, Nat.le_zero.1 hzero, Nat.zero_min]
    · rfl

theorem readDecimal_congr (hprecision : 2 ≤ f.precision) {d d' : Decimal}
    (h : d.num * d'.den = d'.num * d.den) : f.readDecimal d = f.readDecimal d' := by
  have hnum : d.num * f.one * d'.den = d'.num * f.one * d.den := by
    rw [Nat.mul_right_comm, h, Nat.mul_right_comm]
  calc f.readDecimal d = f.round (d.num * f.one) d.den := readDecimal_eq_round hprecision d
    _ = f.round (d.num * f.one * d'.den) (d.den * d'.den) := (f.round_mul_right d'.den_pos).symm
    _ = f.round (d'.num * f.one * d.den) (d'.den * d.den) := by rw [hnum, Nat.mul_comm d.den]
    _ = f.round (d'.num * f.one) d'.den := f.round_mul_right d.den_pos
    _ = f.readDecimal d' := (readDecimal_eq_round hprecision d').symm

/-- Zeros that are written out do not count. -/
theorem readDecimal_shift (hprecision : 2 ≤ f.precision) (digits zeros : Nat) (e : Int) :
    f.readDecimal ⟨digits * 10 ^ zeros, e - zeros⟩ = f.readDecimal ⟨digits, e⟩ := by
  refine readDecimal_congr hprecision ?_
  have hexponents : zeros + (e - zeros).toNat + (-e).toNat = e.toNat + (-(e - zeros)).toNat := by
    omega
  calc digits * 10 ^ zeros * 10 ^ (e - zeros).toNat * 10 ^ (-e).toNat
      = digits * 10 ^ (zeros + (e - zeros).toNat + (-e).toNat) := by
        rw [Nat.pow_add, Nat.pow_add]
        ring
    _ = digits * 10 ^ e.toNat * 10 ^ (-(e - zeros)).toNat := by
        rw [hexponents, Nat.pow_add, Nat.mul_assoc]

theorem readDecimal_zero (hprecision : 2 ≤ f.precision) (e : Int) : f.readDecimal ⟨0, e⟩ = 0 := by
  rw [readDecimal_eq_round hprecision, Decimal.num, Nat.zero_mul, Nat.zero_mul]
  exact f.round_zero (Decimal.den_pos _)

/-! ### The grid -/

/-- How many steps of `10 ^ e` there are below a magnitude. -/
def stepsBelow (f : FloatFormat) (code : Nat) (e : Int) : Nat :=
  f.units code * 10 ^ (-e).toNat / (f.one * 10 ^ e.toNat)

theorem stepsBelow_ofNat (f : FloatFormat) (code e : Nat) :
    f.stepsBelow code (.ofNat e) = f.units code / (f.one * Nat.pow 10 e) := by
  simp [stepsBelow]

theorem stepsBelow_negSucc (f : FloatFormat) (code e : Nat) :
    f.stepsBelow code (.negSucc e) = f.units code * Nat.pow 10 (e + 1) / f.one := by
  simp [stepsBelow]

/-- What is taken from a grid is a neighbour of the magnitude that reads as it. Nothing is taken
only if the upper one does not. -/
inductive Taken (f : FloatFormat) (code steps : Nat) (e : Int) : Option Decimal → Prop where
  | below (h : f.readDecimal ⟨steps, e⟩ = code) : Taken f code steps e (some ⟨steps, e⟩)
  | above (h : f.readDecimal ⟨steps + 1, e⟩ = code) : Taken f code steps e (some ⟨steps + 1, e⟩)
  | neither (h : f.readDecimal ⟨steps + 1, e⟩ ≠ code) : Taken f code steps e none

theorem taken_onGrid (f : FloatFormat) (tie : Tie) (code : Nat) (e : Int) :
    Taken f code (f.stepsBelow code e) e (f.onGrid tie code e) := by
  unfold onGrid
  cases e <;> simp only [stepsBelow_ofNat, stepsBelow_negSucc] <;> split
  all_goals
    next hbelow habove =>
      simp only [beq_iff_eq, beq_eq_false_iff_ne] at hbelow habove
      first
      | exact .neither habove
      | exact .below hbelow
      | exact .above habove
      | cases tie <;> dsimp only <;> split_ifs <;> first | exact .below hbelow | exact .above habove

/-- A grid finer than half the gap above a magnitude has a point that reads as it. -/
theorem readDecimal_above (hprecision : 2 ≤ f.precision) (hpos : 0 < code)
    (hfinite : code < f.infinityCode) {gap : Nat} (hgap : f.units (code + 1) = f.units code + gap)
    (hfine : 2 * (f.one * 10 ^ e.toNat) < gap * 10 ^ (-e).toNat) :
    f.readDecimal ⟨f.stepsBelow code e + 1, e⟩ = code := by
  obtain ⟨last, rfl⟩ := Nat.exists_eq_add_one.2 hpos
  have hstep := f.units_strictMono (Nat.lt_add_one last)
  have hden : 0 < 10 ^ (-e).toNat := Nat.pow_pos (by decide)
  have hgrid : 0 < f.one * 10 ^ e.toNat := Nat.mul_pos f.one_pos (Nat.pow_pos (by decide))
  have hnum : (f.stepsBelow (last + 1) e + 1) * 10 ^ e.toNat * f.one =
      f.stepsBelow (last + 1) e * (f.one * 10 ^ e.toNat) + f.one * 10 ^ e.toNat := by ring
  have habove : f.units (last + 1) * 10 ^ (-e).toNat <
      f.stepsBelow (last + 1) e * (f.one * 10 ^ e.toNat) + f.one * 10 ^ e.toNat :=
    Nat.lt_div_mul_add hgrid
  have hbelow : f.stepsBelow (last + 1) e * (f.one * 10 ^ e.toNat) ≤
      f.units (last + 1) * 10 ^ (-e).toNat := Nat.div_mul_le_self _ _
  have hless := Nat.mul_lt_mul_of_pos_right hstep hden
  rw [readDecimal_eq_round hprecision, round_eq_min, Decimal.num, Decimal.den, hnum,
    nearestCode_eq hden ?_ ?_, Nat.min_eq_left (Nat.le_of_lt hfinite)]
  · rw [Nat.add_mul]
    omega
  · rw [hgap, Nat.add_mul, Nat.add_mul]
    omega

/-- A search takes a decimal if it reaches a grid that is fine enough. -/
theorem exists_search {steps back : Nat} (hback : back < steps)
    (hreads : f.readDecimal ⟨f.stepsBelow code (e - back) + 1, e - back⟩ = code) :
    ∃ d, f.search tie code steps e = some d ∧ f.readDecimal d = code ∧ e - back ≤ d.exponent ∧
      d.digits ≤ f.stepsBelow code d.exponent + 1 := by
  induction steps generalizing e back with
  | zero => exact absurd hback (Nat.not_lt_zero back)
  | succ steps ih =>
    unfold search
    have htaken := f.taken_onGrid tie code e
    generalize f.onGrid tie code e = found at htaken
    cases htaken with
    | below hread => exact ⟨_, rfl, hread, by simp, Nat.le_succ _⟩
    | above hread => exact ⟨_, rfl, hread, by simp, Nat.le_refl _⟩
    | neither hne =>
      cases back with
      | zero =>
        simp only [Int.natCast_zero, Int.sub_zero] at hreads
        exact absurd hreads hne
      | succ back =>
        have hexponent : e - ((back + 1 : Nat) : Int) = e - 1 - back := by omega
        rw [hexponent] at hreads ⊢
        exact ih (by omega) hreads

/-! ### The search succeeds -/

def lastExponent (f : FloatFormat) (code : Nat) : Int :=
  f.leadingExponent (f.units code) - (f.precision - 1 : Nat)

theorem log2_units_le (hprecision : 2 ≤ f.precision) (hfinite : code < f.infinityCode) :
    (f.units code).log2 ≤ f.scale + f.bias := by
  have hless := f.units_strictMono hfinite
  rw [units_infinityCode hprecision] at hless
  by_contra! habove
  have hone : f.one * 2 ^ (f.bias + 1) = 2 ^ (f.scale + f.bias + 1) := by
    rw [Nat.add_assoc, Nat.pow_add _ f.scale]
    rfl
  have hpow : f.one * 2 ^ (f.bias + 1) ≤ f.units code := by
    rw [hone]
    refine (Nat.pow_le_pow_right (by decide) habove).trans (Nat.log2_self_le ?_)
    rintro hzero
    rw [hzero] at habove
    simp at habove
  omega

/-- The last grid is finer than any number of the magnitude's length can tell apart. -/
theorem ten_pow_lastExponent_le (hf : f.IsStandard) (hfinite : code < f.infinityCode) :
    10 ^ (f.lastExponent code).toNat * 2 ^ (f.scale + f.precision + 1) ≤
      2 ^ (f.units code).log2 * 10 ^ (-f.lastExponent code).toNat := by
  have hbounds := hf.bounds
  have hlog := log2_units_le hf.two_le_precision hfinite
  unfold lastExponent leadingExponent
  generalize (f.units code).log2 = log at *
  generalize he : ((log : Int) - f.scale + 1) * 30103 / 100000 + 1 - (f.precision - 1 : Nat) = e
  rcases Int.le_total 0 e with hpos | hneg
  · have hden : (-e).toNat = 0 := by omega
    have hpow : 10 ^ e.toNat ≤ 2 ^ (log - (f.scale + f.precision + 1)) :=
      ten_pow_le_two_pow (by omega)
    rw [hden, Nat.pow_zero, Nat.mul_one]
    calc 10 ^ e.toNat * 2 ^ (f.scale + f.precision + 1)
        ≤ 2 ^ (log - (f.scale + f.precision + 1)) * 2 ^ (f.scale + f.precision + 1) :=
          Nat.mul_le_mul_right _ hpow
      _ = 2 ^ log := by rw [← Nat.pow_add, Nat.sub_add_cancel (by omega)]
  · have hnum : e.toNat = 0 := by omega
    have hpow : 2 ^ (f.scale + f.precision + 1 - log) ≤ 10 ^ (-e).toNat :=
      two_pow_le_ten_pow (by omega)
    rw [hnum, Nat.pow_zero, Nat.one_mul]
    calc 2 ^ (f.scale + f.precision + 1)
        ≤ 2 ^ (log + (f.scale + f.precision + 1 - log)) :=
          Nat.pow_le_pow_right (by decide) (by omega)
      _ = 2 ^ log * 2 ^ (f.scale + f.precision + 1 - log) := Nat.pow_add ..
      _ ≤ 2 ^ log * 10 ^ (-e).toNat := Nat.mul_le_mul_left _ hpow

theorem readDecimal_lastExponent (hf : f.IsStandard) (hpos : 0 < code)
    (hfinite : code < f.infinityCode) :
    f.readDecimal ⟨f.stepsBelow code (f.lastExponent code) + 1, f.lastExponent code⟩ = code := by
  have hprecision := hf.two_le_precision
  obtain ⟨gap, hgap, hnext, hbound⟩ := f.exists_units_succ code
  have hbinade : 2 * f.binade = 2 ^ f.precision := by
    change 2 * 2 ^ f.fractionBits = _
    rw [← Nat.pow_succ', fractionBits]
    congr 1
    omega
  have hunits : 0 < f.units code := by
    have := f.units_strictMono hpos
    omega
  have hpow := ten_pow_lastExponent_le hf hfinite
  refine readDecimal_above hprecision hpos hfinite hnext ?_
  generalize f.lastExponent code = e at *
  have hden : 0 < 10 ^ (-e).toNat := Nat.pow_pos (by decide)
  have hless : 2 * (f.one * 10 ^ e.toNat) * 2 ^ f.precision <
      gap * 10 ^ (-e).toNat * 2 ^ f.precision :=
    calc 2 * (f.one * 10 ^ e.toNat) * 2 ^ f.precision
        = 10 ^ e.toNat * 2 ^ (f.scale + f.precision + 1) := by
          change 2 * (2 ^ f.scale * _) * _ = _
          ring
      _ ≤ 2 ^ (f.units code).log2 * 10 ^ (-e).toNat := hpow
      _ ≤ f.units code * 10 ^ (-e).toNat :=
          Nat.mul_le_mul_right _ (Nat.log2_self_le (Nat.ne_of_gt hunits))
      _ < 2 * f.binade * gap * 10 ^ (-e).toNat := Nat.mul_lt_mul_of_pos_right (by omega) hden
      _ = gap * 10 ^ (-e).toNat * 2 ^ f.precision := by
          rw [hbinade]
          ring
  exact Nat.lt_of_mul_lt_mul_right hless

/-! ### How many digits it takes -/

def digitBound : Nat := 80

/-- A number of so many bits, counted in steps of a grid that is tried, has few digits. -/
theorem two_pow_log2_le (hf : f.IsStandard) (hfinite : code < f.infinityCode)
    (he : f.lastExponent code ≤ e) :
    2 ^ ((f.units code).log2 + 1) * 10 ^ (-e).toNat ≤
      10 ^ (digitBound + e.toNat) * 2 ^ f.scale := by
  have hbounds := hf.bounds
  have hlog := log2_units_le hf.two_le_precision hfinite
  unfold lastExponent leadingExponent at he
  unfold digitBound
  generalize (f.units code).log2 = log at *
  rcases Nat.le_total (log + 1) f.scale with hsmall | hlarge
  · have hpow : 10 ^ ((-e).toNat - (80 + e.toNat)) ≤ 2 ^ (f.scale - (log + 1)) :=
      ten_pow_le_two_pow (by omega)
    calc 2 ^ (log + 1) * 10 ^ (-e).toNat
        ≤ 2 ^ (log + 1) * 10 ^ (80 + e.toNat + ((-e).toNat - (80 + e.toNat))) :=
          Nat.mul_le_mul_left _ (Nat.pow_le_pow_right (by decide) (by omega))
      _ = 10 ^ (80 + e.toNat) * (2 ^ (log + 1) * 10 ^ ((-e).toNat - (80 + e.toNat))) := by
          rw [Nat.pow_add 10]
          ring
      _ ≤ 10 ^ (80 + e.toNat) * (2 ^ (log + 1) * 2 ^ (f.scale - (log + 1))) :=
          Nat.mul_le_mul_left _ (Nat.mul_le_mul_left _ hpow)
      _ = 10 ^ (80 + e.toNat) * 2 ^ f.scale := by rw [← Nat.pow_add, Nat.add_sub_cancel' hsmall]
  · have hpow : 2 ^ (log + 1 - f.scale) ≤ 10 ^ (80 + e.toNat - (-e).toNat) :=
      two_pow_le_ten_pow (by omega)
    calc 2 ^ (log + 1) * 10 ^ (-e).toNat
        = 2 ^ (log + 1 - f.scale) * 10 ^ (-e).toNat * 2 ^ f.scale := by
          rw [Nat.mul_right_comm, ← Nat.pow_add, Nat.sub_add_cancel hlarge]
      _ ≤ 10 ^ (80 + e.toNat - (-e).toNat) * 10 ^ (-e).toNat * 2 ^ f.scale :=
          Nat.mul_le_mul_right _ (Nat.mul_le_mul_right _ hpow)
      _ = 10 ^ (80 + e.toNat) * 2 ^ f.scale := by
          rw [← Nat.pow_add, Nat.sub_add_cancel (by omega)]

theorem stepsBelow_lt (hf : f.IsStandard) (hfinite : code < f.infinityCode)
    (he : f.lastExponent code ≤ e) : f.stepsBelow code e < 10 ^ digitBound := by
  have hgrid : 0 < f.one * 10 ^ e.toNat := Nat.mul_pos f.one_pos (Nat.pow_pos (by decide))
  rw [stepsBelow, Nat.div_lt_iff_lt_mul hgrid]
  calc f.units code * 10 ^ (-e).toNat
      < 2 ^ ((f.units code).log2 + 1) * 10 ^ (-e).toNat :=
        Nat.mul_lt_mul_of_pos_right Nat.lt_log2_self (Nat.pow_pos (by decide))
    _ ≤ 10 ^ (digitBound + e.toNat) * 2 ^ f.scale := two_pow_log2_le hf hfinite he
    _ = 10 ^ digitBound * (f.one * 10 ^ e.toNat) := by
        rw [Nat.pow_add, Nat.mul_assoc, Nat.mul_comm (10 ^ e.toNat)]
        rfl

/-- A shortest decimal reads as the magnitude, and has few digits. -/
theorem readDecimal_shortest (hf : f.IsStandard) (tie : Tie) (hpos : 0 < code)
    (hfinite : code < f.infinityCode) :
    f.readDecimal (f.shortest tie code) = code ∧
      (f.shortest tie code).digits ≤ 10 ^ digitBound := by
  have hprecision := hf.two_le_precision
  have hback : f.precision - 1 < f.precision := by omega
  obtain ⟨d, hd, hread, hexponent, hdigits⟩ :
      ∃ d, f.search tie code f.precision (f.leadingExponent (f.units code)) = some d ∧ _ :=
    exists_search hback (readDecimal_lastExponent hf hpos hfinite)
  rw [shortest, hd, Option.getD_some]
  exact ⟨hread, hdigits.trans (stepsBelow_lt hf hfinite hexponent)⟩

end FloatFormat

end Columnar
