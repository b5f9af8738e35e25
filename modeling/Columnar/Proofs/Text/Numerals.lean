import Columnar.Proofs.FloatingPoint.ShortestDecimal
import Columnar.Proofs.Text.Literals

/-!
# Numerals say their decimal

However a decimal is laid out, with its point in place or with an exponent, the numeral has the
value of the decimal: at most zeros are written out (`Layout.says_numeral`). The layout
adds only a few digits, so the shortest decimal of a float stays below the number of digits that are
told apart, and the numeral reads back as the float.
-/

namespace Columnar.Numeral

variable {f : FloatFormat} {negative : Bool} {d : Decimal}

/-- A decimal is said by a numeral up to zeros that are written out. -/
def Says (n : Numeral) (d : Decimal) : Prop :=
  ∃ zeros : Nat, n.decimal = ⟨d.digits * 10 ^ zeros, d.exponent - zeros⟩

theorem says_of_exponent_eq {n : Numeral}
    (hdigits : Nat.ofDigitChars 10 (n.whole ++ n.fraction) 0 = d.digits)
    (hexponent : n.exponent.getD 0 - n.fraction.length = d.exponent) : n.Says d :=
  ⟨0, by simp [decimal, hdigits, hexponent]⟩

theorem says_inPlace :
    (inPlace negative (Nat.toDigits 10 d.digits)
      (d.exponent + (Nat.toDigits 10 d.digits).length)).Says d := by
  have hvalue : Nat.ofDigitChars 10 (Nat.toDigits 10 d.digits) 0 = d.digits :=
    Nat.ofDigitChars_ten_toDigits
  generalize Nat.toDigits 10 d.digits = digits at *
  generalize hpoint : d.exponent + digits.length = point
  cases point with
  | negSucc zeros =>
    apply says_of_exponent_eq
    · simp [inPlace, Nat.ofDigitChars_append, Nat.ofDigitChars_replicate_zero, hvalue,
        Nat.ofDigitChars_cons]
    · simp [inPlace]
      omega
  | ofNat point =>
    rw [Int.ofNat_eq_natCast] at hpoint
    cases point with
    | zero =>
      apply says_of_exponent_eq
      · simp [inPlace, Nat.ofDigitChars_cons, hvalue]
      · simp [inPlace]
        omega
    | succ point =>
      rcases Nat.lt_or_ge (point + 1) digits.length with hlong | hshort
      · have hne : digits.drop (point + 1) ≠ [] := by simpa using hlong
        have hnone : point + 1 - min (point + 1) digits.length = 0 := by omega
        apply says_of_exponent_eq
        · simp [inPlace, hne, hnone, hvalue]
        · simp [inPlace, hne]
          omega
      · have hnil : digits.drop (point + 1) = [] := by simpa using hshort
        have htake : digits.take (point + 1) = digits := List.take_of_length_le hshort
        refine ⟨point + 1 - digits.length + 1, ?_⟩
        simp [inPlace, decimal, hnil, htake, Nat.ofDigitChars_append,
          Nat.ofDigitChars_replicate_zero, Nat.ofDigitChars_cons, hvalue]
        constructor
        · ring
        · omega

/-- A numeral says the decimal that it lays out. -/
theorem Layout.says_numeral (layout : Layout) (negative : Bool) (hd : d.digits ≠ 0) :
    (layout.numeral negative d).Says d := by
  have hvalue : Nat.ofDigitChars 10 (Nat.toDigits 10 d.digits) 0 = d.digits :=
    Nat.ofDigitChars_ten_toDigits
  have hlength : 0 < (Nat.toDigits 10 d.digits).length := Nat.length_toDigits_pos
  unfold numeral
  dsimp only
  rw [if_neg hd]
  split
  · exact says_inPlace
  · apply says_of_exponent_eq
    · rw [List.take_append_drop, hvalue]
    · simp
      omega

/-- A layout of floats: the point moves by a few digits only. -/
structure Layout.IsNarrow (layout : Layout) : Prop where
  least : -6 ≤ layout.least
  limit : layout.limit ≤ 16

theorem Layout.IsNarrow.length_le {layout : Layout} (hlayout : layout.IsNarrow) (negative : Bool)
    (d : Decimal) :
    (layout.numeral negative d).whole.length + (layout.numeral negative d).fraction.length ≤
      (Nat.toDigits 10 d.digits).length + 18 := by
  obtain ⟨hleast, hlimit⟩ := hlayout
  unfold numeral
  dsimp only
  generalize Nat.toDigits 10 d.digits = digits
  split
  · simp
  · split
    · next hplace =>
      generalize d.exponent + digits.length = point at hplace
      rcases point with (_ | point) | zeros
      · simp [inPlace]
        omega
      · rw [Int.ofNat_eq_natCast] at hplace
        simp only [inPlace, List.length_append, List.length_take, List.length_replicate]
        split
        · simp
          omega
        · simp
          omega
      · simp [inPlace]
        omega
    · simp
      omega

theorem significantDigits_length_le (n : Numeral) :
    n.significantDigits.length ≤ n.whole.length + n.fraction.length := by
  unfold significantDigits significantFraction
  have hall := (n.whole ++ (n.fraction.reverse.dropWhile (· == '0')).reverse).length_dropWhile_le
    (· == '0')
  have hfraction := n.fraction.reverse.length_dropWhile_le (· == '0')
  simp only [List.length_append, List.length_reverse] at hall hfraction ⊢
  omega

theorem int?_eq_none {n : Numeral} (h : n.fraction ≠ [] ∨ n.exponent ≠ none) : n.int? = none := by
  unfold int?
  split
  · next hfraction hexponent => simp [hfraction, hexponent] at h
  · rfl

theorem Layout.int?_numeral (layout : Layout) (negative : Bool) (d : Decimal) :
    (layout.numeral negative d).int? = none := by
  have hne : Nat.toDigits 10 d.digits ≠ [] := Nat.toDigits_ne_nil
  unfold numeral
  dsimp only
  generalize Nat.toDigits 10 d.digits = digits at *
  split
  · exact int?_eq_none (.inl (List.cons_ne_nil _ _))
  · split
    · apply int?_eq_none
      rcases d.exponent + digits.length with (_ | point) | zeros
      · exact .inl hne
      · left
        dsimp only [inPlace]
        split
        · exact List.cons_ne_nil _ _
        · next hfraction => exact fun hnil => hfraction (by rw [hnil]; rfl)
      · left
        simp [inPlace]
    · exact int?_eq_none (.inr (Option.some_ne_none _))

theorem Layout.negative_numeral (layout : Layout) (negative : Bool) (d : Decimal) :
    (layout.numeral negative d).negative = negative := by
  unfold numeral
  dsimp only
  split
  · rfl
  · split
    · rcases d.exponent + (Nat.toDigits 10 d.digits).length with (_ | point) | zeros <;> rfl
    · rfl

/-! ### Shortest decimals -/

section

variable {layout : Layout} {code : Nat}

/-- What tells two floats apart are fewer digits than are read. -/
theorem Layout.IsNarrow.length_significantDigits_le (hlayout : layout.IsNarrow) (hf : f.IsStandard)
    (negative : Bool) (hdigits : d.digits ≤ 10 ^ FloatFormat.digitBound) :
    (layout.numeral negative d).significantDigits.length ≤ f.halfwayDigits := by
  have hless : d.digits < 10 ^ (FloatFormat.digitBound + 1) :=
    Nat.lt_of_le_of_lt hdigits (Nat.pow_lt_pow_right (by decide) (Nat.lt_add_one _))
  have hlength := (Nat.length_toDigits_le_iff (by decide) (Nat.zero_lt_succ _)).2 hless
  have hhalfway : FloatFormat.digitBound + 1 + 18 ≤ f.halfwayDigits := by cases hf <;> decide
  calc (layout.numeral negative d).significantDigits.length
      ≤ (layout.numeral negative d).whole.length + (layout.numeral negative d).fraction.length :=
        significantDigits_length_le _
    _ ≤ (Nat.toDigits 10 d.digits).length + 18 := hlayout.length_le negative d
    _ ≤ FloatFormat.digitBound + 1 + 18 := Nat.add_le_add_right hlength 18
    _ ≤ f.halfwayDigits := hhalfway

/-- The numeral of a float reads back as the float. -/
theorem Layout.IsNarrow.readDecimal_shortest (hlayout : layout.IsNarrow) (hf : f.IsStandard)
    (negative : Bool) (hfinite : code < f.infinityCode) :
    f.readDecimal ((layout.shortest f negative code).decimalWithin f.halfwayDigits) = code := by
  unfold shortest
  split
  · next hzero =>
    rw [decimalWithin_of_le (hlayout.length_significantDigits_le hf negative (Nat.zero_le _)),
      hzero]
    exact FloatFormat.readDecimal_zero hf.two_le_precision _
  · next hne =>
    obtain ⟨hread, hdigits⟩ :=
      FloatFormat.readDecimal_shortest hf layout.tie (Nat.pos_of_ne_zero hne) hfinite
    rw [decimalWithin_of_le (hlayout.length_significantDigits_le hf negative hdigits)]
    generalize f.shortest layout.tie code = d at *
    have hd : d.digits ≠ 0 := by
      rintro hzero
      obtain ⟨digits, exponent⟩ := d
      obtain rfl : digits = 0 := hzero
      rw [FloatFormat.readDecimal_zero hf.two_le_precision] at hread
      exact hne hread.symm
    obtain ⟨zeros, hdecimal⟩ := layout.says_numeral negative hd
    rw [hdecimal, FloatFormat.readDecimal_shift hf.two_le_precision]
    exact hread

end

end Columnar.Numeral
