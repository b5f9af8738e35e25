/-!
# Binary floating-point formats

A format fixes how many bits a significand has and how far exponents reach. The magnitudes of a
format are numbered: the code of a magnitude is its bit pattern without the sign, so a larger
magnitude has a larger code, and the code after the last finite one stands for infinity. Every
finite magnitude is a whole number of the smallest one, which is why all of the arithmetic below can
count in that unit and stay in the natural numbers. Rounding is to nearest, a half going to the even
neighbour.
-/

namespace Columnar

/-- A binary interchange format: the width of a significand, and the exponent bias. -/
structure FloatFormat where
  precision : Nat
  bias : Nat
deriving DecidableEq, Repr

/-- The natural number nearest to `num / den`; a half goes to the even neighbour. -/
def roundHalfEven (num den : Nat) : Nat :=
  let quotient := num / den
  let rest := num % den
  if 2 * rest < den then quotient
  else if den < 2 * rest then quotient + 1
  else quotient + quotient % 2

namespace FloatFormat

def single : FloatFormat := ⟨24, 127⟩

def double : FloatFormat := ⟨53, 1023⟩

variable (f : FloatFormat)

/-- The bits of a significand that are stored; the leading one is implied. -/
def fractionBits : Nat := f.precision - 1

/-- The smallest positive magnitude is `2 ^ (-scale)`. It is the unit in which magnitudes are
counted. -/
def scale : Nat := f.bias + f.precision - 2

def one : Nat := Nat.pow 2 f.scale

/-- How many magnitudes share an exponent. -/
def binade : Nat := Nat.pow 2 f.fractionBits

def infinityCode : Nat := (2 * f.bias + 1) * f.binade

/-- The weight of the sign in a bit pattern. -/
def signBit : Nat := 2 * (f.bias + 1) * f.binade

/-- The magnitude with the given code, counted in the smallest one. -/
def units (code : Nat) : Nat :=
  let exponent := code / f.binade
  let fraction := code % f.binade
  if exponent = 0 then fraction else (f.binade + fraction) * Nat.pow 2 (exponent - 1)

/-- The code nearest to the magnitude `num / den`, counted in the smallest one. Past the last finite
code it is that of infinity. -/
def round (num den : Nat) : Nat :=
  let exponent := Nat.log2 (num / den) - f.fractionBits
  let significand := roundHalfEven num (den * Nat.pow 2 exponent)
  min (significand + exponent * f.binade) f.infinityCode

theorem round_le (num den : Nat) : f.round num den ≤ f.infinityCode :=
  Nat.min_le_right _ _

end FloatFormat

end Columnar
