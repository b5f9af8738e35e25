import Columnar.FloatingPoint.Format

/-!
# Floating-point numbers

A number of a format is a sign and the code of a magnitude; one further value stands for every
invalid result. Numbers are ordered by their signed codes, under which the two zeros are equal. The
invalid value is not comparable with anything, not even with itself.
-/

namespace Columnar

/-- A floating-point number. All invalid results are one value, without sign or payload. -/
inductive Floating (f : FloatFormat) where
  | nan
  | number (negative : Bool) (code : Nat) (bounded : code ≤ f.infinityCode)
deriving DecidableEq, Repr

abbrev Single := Floating FloatFormat.single
abbrev Double := Floating FloatFormat.double

namespace Floating

variable {f : FloatFormat}

instance : Inhabited (Floating f) := ⟨nan⟩

def zero (negative : Bool) : Floating f := number negative 0 (Nat.zero_le _)

def infinity (negative : Bool) : Floating f := number negative f.infinityCode (Nat.le_refl _)

def nearest (negative : Bool) (num den : Nat) : Floating f :=
  number negative (f.round num den) (f.round_le num den)

def neg : Floating f → Floating f
  | nan => nan
  | number negative code bounded => number (!negative) code bounded

def abs : Floating f → Floating f
  | nan => nan
  | number _ code bounded => number false code bounded

/-! ### Order -/

/-- The signed code of a number: larger numbers have larger keys, and both zeros have the key
zero. -/
def key? : Floating f → Option Int
  | nan => none
  | number negative code _ => some (if negative then -code else code)

/-- The order of two numbers; there is none if either is invalid. -/
def compare? (a b : Floating f) : Option Ordering :=
  match a.key?, b.key? with
  | some x, some y => some (compare x y)
  | _, _ => none

def equal (a b : Floating f) : Bool := a.compare? b == some .eq

@[simp] theorem key?_nan : (nan : Floating f).key? = none := rfl

@[simp] theorem key?_number (negative : Bool) (code : Nat) (bounded : code ≤ f.infinityCode) :
    (number negative code bounded).key? = some (if negative then -(code : Int) else code) := rfl

theorem key?_eq_none_iff {a : Floating f} : a.key? = none ↔ a = nan := by
  cases a <;> simp

/-! ### Bit patterns -/

/-- The bit pattern of a number; an invalid one has the positive quiet pattern. -/
def bits : Floating f → Nat
  | nan => f.infinityCode + Nat.pow 2 (f.fractionBits - 1)
  | number negative code _ => (if negative then f.signBit else 0) + code

def ofBits (bits : Nat) : Floating f :=
  let code := bits % f.signBit
  if bounded : code ≤ f.infinityCode then number (decide (f.signBit ≤ bits)) code bounded else nan

end Floating

end Columnar
