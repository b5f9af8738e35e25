import Columnar.FloatingPoint.Basic

/-!
# Decimals and floating-point numbers

A decimal is a whole number of digits times a power of ten. Reading one gives the nearest number of
the format. Going back, `shortest` looks for the coarsest power of ten at which a neighbour of the
number still reads as that number; what it finds reads back by construction, and where the search
ends without a find it gives the exact decimal.
-/

namespace Columnar

/-- The number `digits * 10 ^ exponent`. -/
structure Decimal where
  digits : Nat
  exponent : Int
deriving DecidableEq, Repr

/-- Where a number lies halfway between the two shortest decimals that read as it. -/
inductive Tie where
  | toEven
  | up
deriving DecidableEq, Repr

namespace FloatFormat

variable (f : FloatFormat)

/-- The code nearest to a decimal. Exponents that settle the answer on their own are not raised to a
power. -/
def readDecimal (d : Decimal) : Nat :=
  match d.exponent with
  | .ofNat e =>
    if d.digits = 0 then 0
    else if f.bias < e then f.infinityCode
    else f.round (d.digits * Nat.pow 10 e * f.one) 1
  | .negSucc e =>
    if d.digits.log2 + f.scale + 2 ≤ 3 * e then 0
    else f.round (d.digits * f.one) (Nat.pow 10 (e + 1))

theorem readDecimal_le (d : Decimal) : f.readDecimal d ≤ f.infinityCode := by
  unfold readDecimal
  split
  · split
    · exact Nat.zero_le _
    · split
      · exact Nat.le_refl _
      · exact f.round_le _ _
  · split
    · exact Nat.zero_le _
    · exact f.round_le _ _

/-- The most digits of a decimal halfway between two neighbours. Halfway points are multiples of
half the smallest magnitude, by factors of one bit more than a significand has. -/
def halfwayDigits : Nat := f.scale + 2 - ((f.scale - f.precision) * 30103 + 99999) / 100000

/-- The greatest power of ten worth trying for a magnitude: it is above the magnitude itself. -/
def leadingExponent (units : Nat) : Int :=
  ((units.log2 : Int) - f.scale + 1) * 30103 / 100000 + 1

/-- The neighbours of a magnitude among the multiples of `10 ^ exponent`, tried from below and
above. -/
def onGrid (tie : Tie) (code : Nat) (exponent : Int) : Option Decimal :=
  let (num, den) :=
    match exponent with
    | .ofNat e => (f.units code, f.one * Nat.pow 10 e)
    | .negSucc e => (f.units code * Nat.pow 10 (e + 1), f.one)
  let floor := num / den
  let rest := 2 * (num % den)
  let below : Decimal := ⟨floor, exponent⟩
  let above : Decimal := ⟨floor + 1, exponent⟩
  match f.readDecimal below == code, f.readDecimal above == code with
  | false, false => none
  | true, false => some below
  | false, true => some above
  | true, true =>
    if rest < den then some below
    else if den < rest then some above
    else match tie with
      | .up => some above
      | .toEven => if floor % 2 = 0 then some below else some above

def search (tie : Tie) (code : Nat) : Nat → Int → Option Decimal
  | 0, _ => none
  | steps + 1, exponent =>
    match f.onGrid tie code exponent with
    | some d => some d
    | none => search tie code steps (exponent - 1)

/-- The decimal equal to a magnitude: halving is multiplying by five and dividing by ten. -/
def exactDecimal (code : Nat) : Decimal := ⟨f.units code * Nat.pow 5 f.scale, -f.scale⟩

/-- The decimal of fewest digits that reads as the given magnitude, and of those the nearest. -/
def shortest (tie : Tie) (code : Nat) : Decimal :=
  (f.search tie code f.precision (f.leadingExponent (f.units code))).getD (f.exactDecimal code)

end FloatFormat

def Floating.ofDecimal {f : FloatFormat} (negative : Bool) (d : Decimal) : Floating f :=
  .number negative (f.readDecimal d) (f.readDecimal_le d)

end Columnar
