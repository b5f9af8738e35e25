import Columnar.Json.Reader
import Columnar.Proofs.Text.Literals
import Mathlib.Data.List.TakeDrop

/-!
# Reading tokens back

Strings and numbers are read from their texts. A string's text has an escape for each character
that needs one, and no character is half of a surrogate pair, so the codes that are read are those
of the characters. A numeral's text ends where something follows that belongs to no number, and each
of its parts ends where the next begins.
-/

namespace Columnar

/-! ### Numerals as JSON has them -/

namespace Numeral

/-- Digits around the point, without a superfluous zero in front. -/
structure IsJson (n : Numeral) : Prop extends n.InDigits where
  leading : ∀ rest, n.whole = '0' :: rest → rest = []

theorem eq_zero_of_toDigits {n : Nat} {rest : List Char} (h : Nat.toDigits 10 n = '0' :: rest) :
    n = 0 := by
  induction n using Nat.strongRecOn generalizing rest with
  | ind n ih =>
    rw [Nat.toDigits_eq_if (by decide)] at h
    split at h
    · exact Nat.digitChar_eq_zero.1 (List.cons.inj h).1
    · next hlarge =>
      obtain ⟨c, front, hfront⟩ := List.exists_cons_of_ne_nil (@Nat.toDigits_ne_nil (n / 10) 10)
      rw [hfront] at h
      obtain ⟨rfl, -⟩ := List.cons.inj h
      have hzero := ih (n / 10) (by omega) hfront
      omega

theorem leading_toDigits {n : Nat} {rest : List Char} (h : Nat.toDigits 10 n = '0' :: rest) :
    rest = [] := by
  rw [eq_zero_of_toDigits h, Nat.toDigits_zero] at h
  exact (List.cons.inj h).2.symm

theorem isJson_ofInt (n : Int) : (ofInt n).IsJson :=
  ⟨inDigits_ofInt n, fun _ h => leading_toDigits h⟩

theorem Layout.isJson_numeral (layout : Layout) (negative : Bool) (d : Decimal) :
    (layout.numeral negative d).IsJson := by
  refine ⟨layout.inDigits_numeral negative d, fun rest h => ?_⟩
  unfold numeral at h
  dsimp only at h
  split at h
  · exact (List.cons.inj h).2.symm
  · next hne =>
    obtain ⟨c, digits, hdigits⟩ := List.exists_cons_of_ne_nil (@Nat.toDigits_ne_nil d.digits 10)
    have hc : c ≠ '0' := by
      rintro rfl
      exact hne (eq_zero_of_toDigits hdigits)
    rw [hdigits] at h
    split at h
    · generalize d.exponent + (c :: digits).length = point at h
      rcases point with (_ | point) | zeros
      · exact (List.cons.inj h).2.symm
      · exact absurd (List.cons.inj h).1 hc
      · exact (List.cons.inj h).2.symm
    · exact absurd (List.cons.inj h).1 hc

theorem Layout.isJson_shortest (layout : Layout) (f : FloatFormat) (negative : Bool) (code : Nat) :
    (layout.shortest f negative code).IsJson := by
  unfold shortest
  split <;> exact layout.isJson_numeral negative _

end Numeral

namespace Json

/-! ### Numbers -/

/-- What may follow a value inside a document: nothing, or what goes on after it or closes what it
is in. -/
def Ends (rest : List Char) : Prop := ∀ c ∈ rest.head?, c = ',' ∨ c = ']' ∨ c = '\x7d'

/-- What does not begin with one of the characters. -/
def Avoids (bad : Char → Bool) (cs : List Char) : Prop := ∀ c ∈ cs.head?, bad c = false

variable {ds rest : List Char}

theorem Ends.avoids (h : Ends rest) (bad : Char → Bool)
    (hbad : bad ',' = false ∧ bad ']' = false ∧ bad '\x7d' = false := by decide) :
    Avoids bad rest := by
  intro c hc
  rcases h c hc with rfl | rfl | rfl
  · exact hbad.1
  · exact hbad.2.1
  · exact hbad.2.2

theorem digits_append (hds : ∀ c ∈ ds, c.isDigit = true) (hrest : Avoids Char.isDigit rest) :
    digits (ds ++ rest) = (ds, rest) := by
  have hnone : rest.takeWhile Char.isDigit = [] ∧ rest.dropWhile Char.isDigit = rest := by
    cases rest with
    | nil => exact ⟨rfl, rfl⟩
    | cons c cs =>
      have hc := hrest c rfl
      simp [hc]
  rw [digits, List.span_eq_takeWhile_dropWhile, List.takeWhile_append_of_pos hds,
    List.dropWhile_append_of_pos hds, hnone.1, hnone.2, List.append_nil]

theorem someDigits_append (hne : ds ≠ []) (hds : ∀ c ∈ ds, c.isDigit = true)
    (hrest : Avoids Char.isDigit rest) : someDigits (ds ++ rest) = some (ds, rest) := by
  rw [someDigits, digits_append hds hrest]
  cases ds with
  | nil => exact absurd rfl hne
  | cons d ds => rfl

theorem readWhole_append {n : Numeral} (hn : n.IsJson) (hrest : Avoids Char.isDigit rest) :
    readWhole (n.whole ++ rest) = some (n.whole, rest) := by
  obtain ⟨d, ds, hwhole⟩ := List.exists_cons_of_ne_nil hn.whole_ne_nil
  by_cases hd : d = '0'
  · subst hd
    rw [hwhole, hn.leading ds hwhole]
    rfl
  · have hother : readWhole (n.whole ++ rest) = someDigits (n.whole ++ rest) := by
      rw [hwhole, List.cons_append, readWhole]
      simpa using hd
    rw [hother, someDigits_append hn.whole_ne_nil hn.whole hrest]

theorem Avoids.imp {bad worse : Char → Bool} (h : Avoids worse rest)
    (himp : ∀ c, worse c = false → bad c = false) : Avoids bad rest :=
  fun c hc => himp c (h c hc)

theorem avoids_cons {bad : Char → Bool} {c : Char} (hc : bad c = false) :
    Avoids bad (c :: rest) := by
  intro d hd
  obtain rfl := Option.some.inj hd
  exact hc

theorem readFraction_append {fraction : List Char} (hds : ∀ c ∈ fraction, c.isDigit = true)
    (hrest : Avoids (fun c => c.isDigit || c == '.') rest) :
    readFraction ((if fraction.isEmpty then [] else '.' :: fraction) ++ rest) =
      some (fraction, rest) := by
  have hdigit : Avoids Char.isDigit rest :=
    hrest.imp fun c hc => (Bool.or_eq_false_iff.1 hc).1
  cases fraction with
  | nil =>
    cases rest with
    | nil => rfl
    | cons c cs =>
      have hc : c ≠ '.' := by
        rintro rfl
        exact absurd (hrest '.' rfl) (by decide)
      simp [readFraction, hc]
  | cons d ds => exact someDigits_append (List.cons_ne_nil d ds) hds hdigit

theorem readSigned_exponentText (e : Int) (hrest : Avoids Char.isDigit rest) :
    readSigned (Numeral.exponentText true e ++ rest) = some (e, rest) := by
  have hdigits : ∀ n : Nat,
      someDigits (Nat.toDigits 10 n ++ rest) = some (Nat.toDigits 10 n, rest) := fun n =>
    someDigits_append Nat.toDigits_ne_nil Numeral.isDigit_of_mem_toDigits hrest
  cases e with
  | ofNat e => simp [Numeral.exponentText, readSigned, hdigits]
  | negSucc e =>
    simp [Numeral.exponentText, readSigned, hdigits]
    omega

def exponentPart (e : Option Int) : List Char :=
  match e with
  | none => []
  | some e => 'e' :: Numeral.exponentText true e

def continuesNumber (c : Char) : Bool := c.isDigit || c == '.' || c == 'e' || c == 'E'

theorem readExponent_append (e : Option Int) (hrest : Avoids continuesNumber rest) :
    readExponent (exponentPart e ++ rest) = some (e, rest) := by
  cases e with
  | none =>
    cases rest with
    | nil => rfl
    | cons c cs =>
      have hc := hrest c rfl
      simp only [continuesNumber, Bool.or_eq_false_iff, beq_eq_false_iff_ne] at hc
      simp [exponentPart, readExponent, hc]
  | some e =>
    have hdigit : Avoids Char.isDigit rest := hrest.imp fun c hc => by
      simp only [continuesNumber, Bool.or_eq_false_iff] at hc
      exact hc.1.1.1
    simp [exponentPart, readExponent, readSigned_exponentText e hdigit]

theorem readUnsigned_append {n : Numeral} (hn : n.IsJson) (hrest : Avoids continuesNumber rest) :
    readUnsigned n.negative
        (n.whole ++ ((if n.fraction.isEmpty then [] else '.' :: n.fraction) ++
          (exponentPart n.exponent ++ rest))) =
      some (number n, rest) := by
  have hexponent : Avoids (fun c => c.isDigit || c == '.') (exponentPart n.exponent ++ rest) := by
    cases n.exponent with
    | none => exact hrest.imp fun c hc => by simp_all [continuesNumber]
    | some e => exact avoids_cons (by decide)
  have hfraction : Avoids Char.isDigit
      ((if n.fraction.isEmpty then [] else '.' :: n.fraction) ++
        (exponentPart n.exponent ++ rest)) := by
    split
    · exact hexponent.imp fun c hc => (Bool.or_eq_false_iff.1 hc).1
    · exact avoids_cons (by decide)
  simp only [readUnsigned, readWhole_append hn hfraction, Option.bind_eq_bind, Option.bind_some,
    readFraction_append hn.fraction hexponent, readExponent_append n.exponent hrest]
  rfl

/-- A number is read from its text. -/
theorem readNumber_append {n : Numeral} (hn : n.IsJson) (hrest : Avoids continuesNumber rest) :
    readNumber (n.text true ++ rest) = some (number n, rest) := by
  have htext : n.text true ++ rest = (if n.negative then ['-'] else []) ++ (n.whole ++
      ((if n.fraction.isEmpty then [] else '.' :: n.fraction) ++
        (exponentPart n.exponent ++ rest))) := by
    unfold Numeral.text exponentPart
    cases n.exponent <;> simp
  have hread := readUnsigned_append hn hrest
  rw [htext]
  cases hsign : n.negative with
  | true => simpa [readNumber, hsign] using hread
  | false =>
    obtain ⟨d, ds, hwhole⟩ := List.exists_cons_of_ne_nil hn.whole_ne_nil
    have hd : d ≠ '-' := by
      rintro rfl
      exact absurd (hn.whole '-' (hwhole ▸ List.mem_cons_self)) (by decide)
    rw [hsign, hwhole] at hread
    rw [hwhole]
    simpa [readNumber, hd] using hread

theorem exists_text_eq_cons {n : Numeral} (hn : n.IsJson) :
    ∃ c cs, n.text true = c :: cs ∧ (c == '-' || c.isDigit) = true := by
  obtain ⟨d, ds, hwhole⟩ := List.exists_cons_of_ne_nil hn.whole_ne_nil
  have hd := hn.whole d (hwhole ▸ List.mem_cons_self)
  unfold Numeral.text
  rw [hwhole]
  cases n.negative with
  | true => exact ⟨'-', _, rfl, rfl⟩
  | false => exact ⟨d, _, rfl, by simp [hd]⟩

/-! ### Strings -/

theorem hexValue?_hexDigit : ∀ n < 16, hexValue? (hexDigit n) = some n := by decide

theorem readCodes_short {e : Char} {code : Nat} (he : e ≠ 'u') (hcode : shortEscape? e = some code)
    (rest : List Char) : readCodes ('\\' :: e :: rest) =
      (readCodes rest).map fun found => (code :: found.1, found.2) := by
  rw [readCodes]
  · rw [hcode]
    cases readCodes rest <;> rfl
  · rintro a b c d rest' h -
    exact he h

theorem readCodes_escape (c : Char) (rest : List Char) :
    readCodes (escape c ++ rest) =
      (readCodes rest).map fun found => (c.toNat :: found.1, found.2) := by
  unfold escape
  split_ifs with hquote hbackslash hb hf hn hr ht hcontrol
  any_goals
    subst_vars
    exact readCodes_short (by decide) (by decide) rest
  · have hhigh := hexValue?_hexDigit (c.toNat / 16) (by omega)
    have hlow := hexValue?_hexDigit (c.toNat % 16) (by omega)
    have hzero : hexValue? '0' = some 0 := by decide
    have hcode : (0 * 16 + 0) * 256 + c.toNat / 16 * 16 + c.toNat % 16 = c.toNat := by omega
    simp only [List.cons_append, List.nil_append, readCodes, hzero, hhigh, hlow,
      Option.bind_eq_bind, Option.bind_some, hcode]
    cases readCodes rest <;> rfl
  · simp only [List.cons_append, List.nil_append]
    rw [readCodes]
    · rw [if_neg (by simp [hcontrol, hbackslash])]
      cases readCodes rest <;> rfl
    · exact hquote
    · rintro a b cc d rest' rfl
      exact fun _ => hbackslash rfl
    · rintro e rest' rfl
      exact fun _ => hbackslash rfl

theorem readCodes_content (content rest : List Char) :
    readCodes (content.flatMap escape ++ '"' :: rest) = some (content.map Char.toNat, rest) := by
  induction content with
  | nil => rfl
  | cons c content ih =>
    rw [List.flatMap_cons, List.append_assoc, readCodes_escape, ih]
    rfl

theorem not_surrogate (c : Char) : (isHighSurrogate c.toNat || isLowSurrogate c.toNat) = false := by
  have hvalid : c.toNat < 0xd800 ∨ 0xdfff < c.toNat ∧ c.toNat < 0x110000 := c.valid
  simp only [isHighSurrogate, isLowSurrogate]
  grind

theorem decodeCodes_cons (c : Char) (codes : List Nat) :
    decodeCodes (c.toNat :: codes) = (decodeCodes codes).map (c :: ·) := by
  have hno := not_surrogate c
  obtain ⟨hhigh, hlow⟩ := Bool.or_eq_false_iff.1 hno
  cases codes with
  | nil => simp [decodeCodes, hhigh, hlow]
  | cons code codes =>
    simp [decodeCodes, hhigh, hlow]
    cases decodeCodes (code :: codes) <;> rfl

theorem decodeCodes_map_toNat (content : List Char) :
    decodeCodes (content.map Char.toNat) = some content := by
  induction content with
  | nil => rfl
  | cons c content ih => rw [List.map_cons, decodeCodes_cons, ih, Option.map_some]

/-- A string is read from its text, whatever its characters. -/
theorem readContent_stringText (s : String) (rest : List Char) :
    readContent (s.toList.flatMap escape ++ '"' :: rest) = some (some s, rest) := by
  rw [readContent, readCodes_content]
  simp [decodeCodes_map_toNat]

end Json

end Columnar
