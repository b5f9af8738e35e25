import Columnar.FloatingPoint.Decimal

/-!
# Written numbers

A numeral keeps a number as it is written: the digits before the point, those after it, and the
exponent. A number without a point has no fraction digits. The text of a numeral is that of its
parts in order; its value is a decimal, or an integer where neither point nor exponent is written.
-/

namespace Columnar

structure Numeral where
  negative : Bool
  whole : List Char
  fraction : List Char
  exponent : Option Int
deriving DecidableEq, Repr

namespace Numeral

/-- The text of an exponent; `plus` says whether a sign is written before one that is not
negative. -/
def exponentText (plus : Bool) : Int → List Char
  | .ofNat e => (if plus then ['+'] else []) ++ Nat.toDigits 10 e
  | .negSucc e => '-' :: Nat.toDigits 10 (e + 1)

def text (plus : Bool) (n : Numeral) : List Char :=
  (if n.negative then ['-'] else []) ++ n.whole ++
    (if n.fraction.isEmpty then [] else '.' :: n.fraction) ++
    (match n.exponent with
      | none => []
      | some e => 'e' :: exponentText plus e)

def decimal (n : Numeral) : Decimal :=
  ⟨Nat.ofDigitChars 10 (n.whole ++ n.fraction) 0, n.exponent.getD 0 - n.fraction.length⟩

/-- The integer that is written, if one is. Zero with a sign is no integer. -/
def int? (n : Numeral) : Option Int :=
  match n.fraction, n.exponent with
  | [], none =>
    let magnitude := Nat.ofDigitChars 10 n.whole 0
    if n.negative then
      if magnitude = 0 then none else some (-magnitude)
    else some magnitude
  | _, _ => none

/-- The digits of the fraction without the zeros it ends with. -/
def significantFraction (n : Numeral) : List Char :=
  (n.fraction.reverse.dropWhile (· == '0')).reverse

/-- The digits that count: neither the zeros in front nor those that end the fraction. -/
def significantDigits (n : Numeral) : List Char :=
  (n.whole ++ n.significantFraction).dropWhile (· == '0')

/-- The magnitude that is written, to a number of digits. Where more digits count, a one stands for
all that follow: the magnitude then lies above what the first digits say, whatever the others
are. -/
def decimalWithin (limit : Nat) (n : Numeral) : Decimal :=
  let digits := n.significantDigits
  if digits.length ≤ limit then n.decimal
  else
    ⟨Nat.ofDigitChars 10 (digits.take limit ++ ['1']) 0,
      n.exponent.getD 0 - n.significantFraction.length + (digits.length - limit - 1 : Nat)⟩

theorem decimalWithin_of_le {limit : Nat} {n : Numeral}
    (h : n.significantDigits.length ≤ limit) : n.decimalWithin limit = n.decimal :=
  if_pos h

def ofInt (n : Int) : Numeral := ⟨decide (n < 0), Nat.toDigits 10 n.natAbs, [], none⟩

/-! ### Layouts

How a decimal is written: with its point in place while the exponent of the leading digit lies in a
range, and with an exponent otherwise. -/

structure Layout where
  tie : Tie
  /-- The least exponent of a leading digit that is written in place. -/
  least : Int
  /-- The first exponent of a leading digit that no longer is. -/
  limit : Int
  /-- Whether a positive exponent carries a sign. -/
  plus : Bool

/-- The digits with the point after the first `point` of them, at least one on either side. -/
def inPlace (negative : Bool) (digits : List Char) : Int → Numeral
  | .ofNat 0 => ⟨negative, ['0'], digits, none⟩
  | .ofNat (point + 1) =>
    let whole := digits.take (point + 1)
    let fraction := digits.drop (point + 1)
    ⟨negative, whole ++ List.replicate (point + 1 - whole.length) '0',
      if fraction.isEmpty then ['0'] else fraction, none⟩
  | .negSucc zeros => ⟨negative, ['0'], List.replicate (zeros + 1) '0' ++ digits, none⟩

def Layout.numeral (layout : Layout) (negative : Bool) (d : Decimal) : Numeral :=
  let digits := Nat.toDigits 10 d.digits
  let point := d.exponent + digits.length
  if d.digits = 0 then ⟨negative, ['0'], ['0'], none⟩
  else if layout.least < point ∧ point ≤ layout.limit then inPlace negative digits point
  else ⟨negative, digits.take 1, digits.drop 1, some (point - 1)⟩

/-- The numeral of a magnitude, in the fewest digits that read back. -/
def Layout.shortest (layout : Layout) (f : FloatFormat) (negative : Bool) (code : Nat) : Numeral :=
  if code = 0 then layout.numeral negative ⟨0, 0⟩
  else layout.numeral negative (f.shortest layout.tie code)

end Numeral

/-! ### Integers -/

def intText (n : Int) : String := String.ofList ((Numeral.ofInt n).text false)

def natText (n : Nat) : String := intText n

end Columnar
