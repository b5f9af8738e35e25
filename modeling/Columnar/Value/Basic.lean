import Columnar.DataType
import Columnar.FloatingPoint.Arithmetic

/-!
# Values

A value is a null or a content of one of the data types. Two values have an order only when they are
of one type; two numbers of different types are first brought to a common one. Equality of values is
numeric on floats, so it is neither the identity of values nor finer than it: zeros of either sign
are equal, and an invalid number is not equal to itself.
-/

namespace Columnar

inductive Value where
  | int64 (n : Int64)
  | float32 (x : Single)
  | float64 (x : Double)
  | bool (b : Bool)
  | string (s : String)
  | date (days : Int32)
  | timestamp (micros : Int64)
  | null
deriving DecidableEq, Inhabited

namespace Value

def dataType : Value → DataType
  | int64 _ => .int64
  | float32 _ => .float32
  | float64 _ => .float64
  | bool _ => .bool
  | string _ => .string
  | date _ => .date
  | timestamp _ => .timestamp
  | null => .null

def isNull : Value → Bool
  | null => true
  | _ => false

def typeName (v : Value) : String := v.dataType.name

@[simp] theorem isNull_iff {v : Value} : v.isNull = true ↔ v = null := by
  cases v <;> simp [isNull]

theorem dataType_eq_null_iff {v : Value} : v.dataType = .null ↔ v = null := by
  cases v <;> simp [dataType]

/-! ### Order and equality -/

/-- The order of two values of one type. Nulls, and an invalid number, have no order. -/
def compare? : Value → Value → Option Ordering
  | int64 a, int64 b => some (compare a.toInt b.toInt)
  | timestamp a, timestamp b => some (compare a.toInt b.toInt)
  | date a, date b => some (compare a.toInt b.toInt)
  | float32 a, float32 b => a.compare? b
  | float64 a, float64 b => a.compare? b
  | bool a, bool b => some (compare a.toNat b.toNat)
  | string a, string b => some (compareOfLessAndEq a b)
  | _, _ => none

/-- Equality of contents, numeric on floats. Nulls are equal. -/
def equal : Value → Value → Bool
  | float32 a, float32 b => a.equal b
  | float64 a, float64 b => a.equal b
  | a, b => a == b

/-- The type and content that a hash of the value is taken from; a float counts by its bits. -/
def hashKey (v : Value) : DataType × Int × String :=
  match v with
  | int64 n => (v.dataType, n.toInt, "")
  | timestamp n => (v.dataType, n.toInt, "")
  | date n => (v.dataType, n.toInt, "")
  | float32 x => (v.dataType, x.bits, "")
  | float64 x => (v.dataType, x.bits, "")
  | bool b => (v.dataType, b.toNat, "")
  | string s => (v.dataType, 0, s)
  | null => (v.dataType, 0, "")

/-! ### Numbers of different types -/

/-- The value as a number of the widest type, if it is one. -/
def toDouble? : Value → Option Double
  | int64 n => some (.ofInt n.toInt)
  | float32 x => some x.widen
  | float64 x => some x
  | _ => none

/-- Two numbers of different types become floats of the wider width; any other pair stays as it
is. -/
def promote (a b : Value) : Value × Value :=
  if a.dataType = b.dataType then (a, b)
  else
    match a.toDouble?, b.toDouble? with
    | some x, some y => (float64 x, float64 y)
    | _, _ => (a, b)

end Value

end Columnar
