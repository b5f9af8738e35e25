import Columnar.FloatingPoint.Arithmetic
import Columnar.Proofs.FloatingPoint.Rounding

/-!
# Conversions keep the order

An integer, or a number of one format, goes over into a format by having its magnitude rounded,
infinity going to infinity, and its sign kept. Rounding keeps the order of magnitudes, so conversion
keeps the order of numbers. Different numbers may become equal, unless the second format has every
number of the first (`Widens`): then nothing is rounded, and comparing before conversion and after
it is the same (`compare?_convert`).
-/

namespace Columnar

namespace FloatFormat

variable {f g : FloatFormat}

/-- The second format has longer significands and reaches further both ways. -/
structure Widens (f g : FloatFormat) : Prop where
  two_le_precision : 2 ≤ f.precision
  precision_le : f.precision ≤ g.precision
  bias_le : f.bias ≤ g.bias

theorem single_widens_double : single.Widens double := by
  constructor <;> decide

/-- Each finite magnitude of the first format is one of the second. -/
theorem Widens.exists_units (h : f.Widens g) {code : Nat} (hcode : code < f.infinityCode) :
    ∃ d < g.infinityCode, g.units d * f.one = f.units code * g.one := by
  obtain ⟨hprecision, hle, hbias⟩ := h
  obtain ⟨k, hscale⟩ := Nat.exists_eq_add_of_le (show f.scale ≤ g.scale by unfold scale; omega)
  have hone : g.one = f.one * 2 ^ k := by
    change 2 ^ g.scale = 2 ^ f.scale * 2 ^ k
    rw [hscale, Nat.pow_add]
  have hbinade : f.binade ≤ g.binade :=
    Nat.pow_le_pow_right (by decide) (by unfold fractionBits; omega)
  have hlimit : f.units f.infinityCode * g.one ≤ g.units g.infinityCode * f.one := by
    rw [units_infinityCode hprecision, units_infinityCode (hprecision.trans hle)]
    calc f.one * 2 ^ (f.bias + 1) * g.one = f.one * g.one * 2 ^ (f.bias + 1) := by ring
      _ ≤ f.one * g.one * 2 ^ (g.bias + 1) :=
        Nat.mul_le_mul_left _ (Nat.pow_le_pow_right (by decide) (by omega))
      _ = g.one * 2 ^ (g.bias + 1) * f.one := by ring
  obtain ⟨m, e, hparts, hm, he⟩ := f.exists_significand code
  obtain ⟨d, hd⟩ := g.exists_units_eq (m := m) (by omega) (e + k)
  have hsame : g.units d * f.one = f.units code * g.one := by
    rw [hd, hparts, f.units_add_mul hm.le he, hone, Nat.pow_add]
    ring
  have hfinite : f.units code * g.one < f.units f.infinityCode * g.one :=
    Nat.mul_lt_mul_of_pos_right (f.units_strictMono hcode) g.one_pos
  rw [← hsame] at hfinite
  exact ⟨d, g.units_strictMono.lt_iff_lt.1 (Nat.lt_of_mul_lt_mul_right (hfinite.trans_le hlimit)),
    hsame⟩

end FloatFormat

namespace Floating

variable {f g : FloatFormat}

/-- What is kept in order on magnitudes, and keeps zero, is kept in order with signs. -/
theorem signed_mono {h : Nat → Nat} {c d : Nat} (hzero : h 0 = 0) (hcd : c ≤ d → h c ≤ h d)
    (hdc : d ≤ c → h d ≤ h c) {s t : Bool}
    (hle : (if s then -(c : Int) else c) ≤ if t then -(d : Int) else d) :
    (if s then -(h c : Int) else h c) ≤ if t then -(h d : Int) else h d := by
  cases s <;> cases t <;> simp only [Bool.false_eq_true, if_true, if_false] at hle ⊢
  case false.false => exact Int.ofNat_le.2 (hcd (by omega))
  case true.true => exact Int.neg_le_neg (Int.ofNat_le.2 (hdc (by omega)))
  case true.false => omega
  case false.true =>
    obtain ⟨rfl, rfl⟩ : c = 0 ∧ d = 0 := by omega
    rw [hzero]
    decide

theorem signed_lt {h : Nat → Nat} {limit c d : Nat} (hzero : h 0 = 0)
    (hstrict : ∀ {c d}, c < d → d ≤ limit → h c < h d) (hc : c ≤ limit) (hd : d ≤ limit)
    {s t : Bool} (hlt : (if s then -(c : Int) else c) < if t then -(d : Int) else d) :
    (if s then -(h c : Int) else h c) < if t then -(h d : Int) else h d := by
  have hpos : ∀ {k}, 0 < k → k ≤ limit → 0 < h k := fun hk hlimit => hzero ▸ hstrict hk hlimit
  cases s <;> cases t <;> simp only [Bool.false_eq_true, if_true, if_false] at hlt ⊢
  case false.false => exact Int.ofNat_lt.2 (hstrict (Int.ofNat_lt.1 hlt) hd)
  case true.true => exact Int.neg_lt_neg (Int.ofNat_lt.2 (hstrict (by omega) hc))
  case true.false =>
    rcases Nat.eq_zero_or_pos c with rfl | hcpos
    · have := hpos (show 0 < d by omega) hd
      omega
    · have := hpos hcpos hc
      omega
  case false.true => omega

def AtMost (a b : Floating f) : Prop := ∃ x y, a.key? = some x ∧ b.key? = some y ∧ x ≤ y

theorem key?_nearest (negative : Bool) (num den : Nat) :
    (nearest negative num den : Floating f).key? =
      some (if negative then -(f.round num den : Int) else f.round num den) := rfl

theorem atMost_ofInt {m n : Int} (h : m ≤ n) : (ofInt m : Floating f).AtMost (ofInt n) := by
  refine ⟨_, _, key?_nearest _ _ _, key?_nearest _ _ _, ?_⟩
  have hsigned : ∀ i : Int, (if decide (i < 0) then -(i.natAbs : Int) else i.natAbs) = i := by
    intro i
    rcases lt_or_ge i 0 with hi | hi
    · rw [decide_eq_true hi, if_pos rfl]
      omega
    · rw [decide_eq_false (Int.not_lt.2 hi), if_neg Bool.false_ne_true]
      omega
  have hmono : Monotone fun k => f.round (k * f.one) 1 := fun c d hcd =>
    FloatFormat.round_mono Nat.one_pos (Nat.mul_le_mul_right _ hcd)
  refine signed_mono (h := fun k => f.round (k * f.one) 1) ?_ (@hmono _ _) (@hmono _ _)
    (by rwa [hsigned, hsigned])
  rw [Nat.zero_mul, FloatFormat.round_zero Nat.one_pos]

/-- The code that a magnitude has in another format. -/
def convertCode (f g : FloatFormat) (code : Nat) : Nat :=
  if code = f.infinityCode then g.infinityCode else g.round (f.units code * g.one) f.one

theorem convertCode_mono {c d : Nat} (h : c ≤ d) (hd : d ≤ f.infinityCode) :
    convertCode f g c ≤ convertCode f g d := by
  unfold convertCode
  split
  · rw [if_pos (by omega)]
  · split
    · exact g.round_le _ _
    · exact FloatFormat.round_mono f.one_pos (Nat.mul_le_mul_right _ (f.units_mono h))

theorem key?_convert (negative : Bool) {code : Nat} (hcode : code ≤ f.infinityCode) :
    ((number negative code hcode).convert g).key? =
      some (if negative then -(convertCode f g code : Int) else convertCode f g code) := by
  unfold convert convertCode isInfinite
  by_cases hinfinite : code = f.infinityCode
  · simp [hinfinite, infinity]
  · simp [hinfinite, key?_nearest]

@[simp] theorem convert_nan : (nan : Floating f).convert g = nan := rfl

theorem convert_eq_nan_iff {a : Floating f} : a.convert g = nan ↔ a = nan := by
  cases a with
  | nan => simp
  | number negative code hcode =>
    simp [← key?_eq_none_iff, key?_convert]

theorem convertCode_zero (f g : FloatFormat) : convertCode f g 0 = 0 := by
  rw [convertCode, if_neg f.infinityCode_pos.ne, FloatFormat.units_zero, Nat.zero_mul,
    FloatFormat.round_zero f.one_pos]

theorem AtMost.convert {a b : Floating f} (h : a.AtMost b) :
    (a.convert g).AtMost (b.convert g) := by
  obtain ⟨x, y, ha, hb, hle⟩ := h
  cases a with
  | nan => cases ha
  | number s c hc =>
    cases b with
    | nan => cases hb
    | number t d hd =>
      cases ha
      cases hb
      refine ⟨_, _, key?_convert s hc, key?_convert t hd, ?_⟩
      exact signed_mono (convertCode_zero f g) (fun h => convertCode_mono h hd)
        (fun h => convertCode_mono h hc) hle

/-! ### Into a wider format -/

theorem units_convertCode (h : f.Widens g) {code : Nat} (hcode : code < f.infinityCode) :
    convertCode f g code < g.infinityCode ∧
      g.units (convertCode f g code) * f.one = f.units code * g.one := by
  obtain ⟨d, hd, hsame⟩ := h.exists_units hcode
  have hconvert : convertCode f g code = d := by
    unfold convertCode
    rw [if_neg hcode.ne, ← hsame, FloatFormat.round_eq_min,
      FloatFormat.nearestCode_units f.one_pos, Nat.min_eq_left hd.le]
  rw [hconvert]
  exact ⟨hd, hsame⟩

theorem convertCode_lt (h : f.Widens g) {c d : Nat} (hcd : c < d) (hd : d ≤ f.infinityCode) :
    convertCode f g c < convertCode f g d := by
  obtain ⟨hfinite, hc⟩ := units_convertCode h (hcd.trans_le hd)
  rcases hd.lt_or_eq with hd | rfl
  · have hunits : f.units c * g.one < f.units d * g.one :=
      Nat.mul_lt_mul_of_pos_right (f.units_strictMono hcd) g.one_pos
    rw [← hc, ← (units_convertCode h hd).2] at hunits
    exact g.units_strictMono.lt_iff_lt.1 (Nat.lt_of_mul_lt_mul_right hunits)
  · rwa [convertCode.eq_def f g f.infinityCode, if_pos rfl]

/-- Numbers compare as they do in a wider format. -/
theorem compare?_convert (h : f.Widens g) (a b : Floating f) :
    (a.convert g).compare? (b.convert g) = a.compare? b := by
  cases a with
  | nan => rfl
  | number s c hc =>
    cases b with
    | nan => simp [compare?]
    | number t d hd =>
      have hzero := convertCode_zero f g
      unfold compare?
      rw [key?_convert, key?_convert, key?_number, key?_number]
      refine congrArg some ?_
      rcases lt_trichotomy (if s then -(c : Int) else c) (if t then -(d : Int) else d)
        with hlt | heq | hgt
      · rw [compare_lt_iff_lt.2 hlt,
          compare_lt_iff_lt.2 (signed_lt hzero (convertCode_lt h) hc hd hlt)]
      · have hle := signed_mono hzero (fun h => convertCode_mono h hd)
          (fun h => convertCode_mono h hc) heq.le
        have hge := signed_mono hzero (fun h => convertCode_mono h hc)
          (fun h => convertCode_mono h hd) heq.ge
        rw [compare_eq_iff_eq.2 heq, compare_eq_iff_eq.2 (le_antisymm hle hge)]
      · rw [compare_gt_iff_gt.2 hgt,
          compare_gt_iff_gt.2 (signed_lt hzero (convertCode_lt h) hd hc hgt)]

end Floating

end Columnar
