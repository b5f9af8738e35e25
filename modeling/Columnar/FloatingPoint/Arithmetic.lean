import Columnar.FloatingPoint.Basic

/-!
# Floating-point arithmetic

Each operation is the exact result on magnitudes counted in the smallest one, rounded once.
Infinities and invalid operands are settled first. Division of magnitudes leaves the unit behind and
multiplication squares it, so those two carry the unit along as a power of two.
-/

namespace Columnar.Floating

variable {f g : FloatFormat}

def isInfinite (f : FloatFormat) (code : Nat) : Bool := code == f.infinityCode

def signedUnits (f : FloatFormat) (negative : Bool) (code : Nat) : Int :=
  if negative then -(f.units code : Int) else f.units code

/-- The sum. An exact zero is positive unless both operands are negative. -/
def add (a b : Floating f) : Floating f :=
  match a, b with
  | nan, _ => nan
  | _, nan => nan
  | number s x _, number t y _ =>
    match isInfinite f x, isInfinite f y with
    | true, true => if s = t then infinity s else nan
    | true, false => infinity s
    | false, true => infinity t
    | false, false =>
      let total := signedUnits f s x + signedUnits f t y
      if total = 0 then zero (s && t) else nearest (decide (total < 0)) total.natAbs 1

def sub (a b : Floating f) : Floating f := add a b.neg

def mul (a b : Floating f) : Floating f :=
  match a, b with
  | nan, _ => nan
  | _, nan => nan
  | number s x _, number t y _ =>
    if isInfinite f x || isInfinite f y then
      if x = 0 || y = 0 then nan else infinity (s ^^ t)
    else nearest (s ^^ t) (f.units x * f.units y) f.one

def div (a b : Floating f) : Floating f :=
  match a, b with
  | nan, _ => nan
  | _, nan => nan
  | number s x _, number t y _ =>
    match isInfinite f x, isInfinite f y with
    | true, true => nan
    | true, false => infinity (s ^^ t)
    | false, true => zero (s ^^ t)
    | false, false =>
      if y = 0 then
        if x = 0 then nan else infinity (s ^^ t)
      else nearest (s ^^ t) (f.units x * f.one) (f.units y)

/-- The remainder of the division that truncates toward zero, with the sign of the dividend. It is
exact. -/
def rem (a b : Floating f) : Floating f :=
  match a, b with
  | nan, _ => nan
  | _, nan => nan
  | number s x hx, number _ y _ =>
    if isInfinite f x || y = 0 then nan
    else if isInfinite f y then number s x hx
    else nearest s (f.units x % f.units y) 1

/-! ### Conversions -/

/-- The number nearest to an integer. -/
def ofInt (n : Int) : Floating f := nearest (decide (n < 0)) (n.natAbs * f.one) 1

/-- The number of the format `g` nearest to a number of another one. -/
def convert (g : FloatFormat) : Floating f → Floating g
  | nan => nan
  | number s x _ =>
    if isInfinite f x then infinity s else nearest s (f.units x * g.one) f.one

end Columnar.Floating

namespace Columnar

def Single.widen (x : Single) : Double := x.convert FloatFormat.double

def Double.narrow (x : Double) : Single := x.convert FloatFormat.single

end Columnar
