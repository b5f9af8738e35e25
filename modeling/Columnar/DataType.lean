/-!
# Data types

The types a column may declare, with their names in messages and schemas. The null type is that of a
value that is always null.
-/

namespace Columnar

inductive DataType where
  | int64
  | float32
  | float64
  | bool
  | string
  | date
  | timestamp
  | null
deriving DecidableEq, Repr, Inhabited

namespace DataType

def name : DataType → String
  | int64 => "INT64"
  | float32 => "FLOAT32"
  | float64 => "FLOAT64"
  | bool => "BOOL"
  | string => "STRING"
  | date => "DATE"
  | timestamp => "TIMESTAMP"
  | null => "NULL"

def isNumeric : DataType → Bool
  | int64 | float32 | float64 => true
  | _ => false

/-- Whether values of the type have a least and a greatest among them. -/
def isOrderable : DataType → Bool
  | int64 | float32 | float64 | string | date | timestamp => true
  | _ => false

theorem isOrderable_of_isNumeric {t : DataType} (h : t.isNumeric = true) :
    t.isOrderable = true := by
  cases t <;> simp_all [isNumeric, isOrderable]

end DataType

end Columnar
