import Columnar.Error
import Columnar.Value.Literal

/-!
# Operators

Binary and unary operators on values. The logical ones follow three-valued logic, a null being
undetermined. For all the others a null operand makes the result null before anything else is looked
at; then two numbers of different types are brought to a common one. Integers are computed exactly:
a result that does not fit is an overflow, never a wrapped number.
-/

namespace Columnar

inductive ArithmeticOp where
  | add
  | sub
  | mul
  | div
  | mod
deriving DecidableEq, Repr

inductive ComparisonOp where
  | eq
  | neq
  | lt
  | lte
  | gt
  | gte
deriving DecidableEq, Repr

inductive LogicalOp where
  | and
  | or
deriving DecidableEq, Repr

inductive BinaryOp where
  | arithmetic (op : ArithmeticOp)
  | comparison (op : ComparisonOp)
  | logical (op : LogicalOp)
deriving DecidableEq, Repr

inductive UnaryOp where
  | not
  | neg
deriving DecidableEq, Repr

def EvalError.wrongType (expected : String) (v : Value) : EvalError :=
  .typeMismatch expected v.typeName

/-! ### Integers -/

/-- The 64-bit integer equal to `n`, if there is one. -/
def checked (n : Int) : Option Int64 :=
  if Int64.minValue.toInt ≤ n ∧ n ≤ Int64.maxValue.toInt then some (Int64.ofInt n) else none

theorem toInt_ofInt_of_between {n : Int} (hlow : Int64.minValue.toInt ≤ n)
    (hhigh : n ≤ Int64.maxValue.toInt) : (Int64.ofInt n).toInt = n := by
  rw [Int64.toInt_minValue] at hlow
  rw [Int64.toInt_maxValue] at hhigh
  exact Int64.toInt_ofInt_of_le hlow (Int.lt_of_le_sub_one hhigh)

theorem checked_eq_some_iff {n : Int} {v : Int64} : checked n = some v ↔ v.toInt = n := by
  unfold checked
  constructor
  · intro h
    split at h
    · next hrange =>
      obtain rfl := Option.some.inj h
      exact toInt_ofInt_of_between hrange.1 hrange.2
    · exact absurd h (by simp)
  · rintro rfl
    rw [if_pos ⟨Int64.minValue_le_toInt v, Int64.toInt_le v⟩, Int64.ofInt_toInt]

/-- The result of an integer operation, or the overflow of the operation as it is written. -/
def checkedOr (operation : String) (result : Option Int64) : Except EvalError Value :=
  match result with
  | some n => .ok (.int64 n)
  | none => .error (.overflow operation)

namespace ArithmeticOp

def symbol : ArithmeticOp → String
  | add => "+"
  | sub => "-"
  | mul => "*"
  | div => "/"
  | mod => "%"

/-- The exact result on integers, division truncating toward zero. -/
def onInt : ArithmeticOp → Int → Int → Int
  | add => (· + ·)
  | sub => (· - ·)
  | mul => (· * ·)
  | div => Int.tdiv
  | mod => Int.tmod

def onFloat {f : FloatFormat} : ArithmeticOp → Floating f → Floating f → Floating f
  | add => .add
  | sub => .sub
  | mul => .mul
  | div => .div
  | mod => .rem

def divides : ArithmeticOp → Bool
  | div | mod => true
  | _ => false

/-- The result on 64-bit integers, if it fits. A remainder has none where the quotient has none. -/
def onInt64 (op : ArithmeticOp) (a b : Int64) : Option Int64 :=
  if op = mod ∧ checked (Int.tdiv a.toInt b.toInt) = none then none
  else checked (op.onInt a.toInt b.toInt)

/-- The operator on two operands that are not null. -/
def apply (op : ArithmeticOp) (left right : Value) : Except EvalError Value :=
  match left.promote right with
  | (.int64 a, .int64 b) =>
    if op.divides ∧ b = 0 then .error .divisionByZero
    else checkedOr (intText a.toInt ++ " " ++ op.symbol ++ " " ++ intText b.toInt) (op.onInt64 a b)
  | (.float64 a, .float64 b) => .ok (.float64 (op.onFloat a b))
  | (.float32 a, .float32 b) => .ok (.float32 (op.onFloat a b))
  | (l, r) => .error (.wrongType "numeric" (if l.dataType.isNumeric then r else l))

end ArithmeticOp

namespace ComparisonOp

def symbol : ComparisonOp → String
  | eq => "="
  | neq => "<>"
  | lt => "<"
  | lte => "<="
  | gt => ">"
  | gte => ">="

/-- Whether the operator holds of two operands in the given order. Without an order they are only
different. -/
def holds (op : ComparisonOp) : Option Ordering → Bool
  | none => op = neq
  | some o =>
    match op with
    | eq => o = .eq
    | neq => o ≠ .eq
    | lt => o = .lt
    | lte => o ≠ .gt
    | gt => o = .gt
    | gte => o ≠ .lt

def apply (op : ComparisonOp) (left right : Value) : Except EvalError Value :=
  let (l, r) := left.promote right
  if l.dataType = r.dataType then .ok (.bool (op.holds (l.compare? r)))
  else .error (.wrongType l.typeName r)

end ComparisonOp

/-- A truth value; a null is undetermined. -/
def Value.truth? : Value → Except EvalError (Option Bool)
  | bool b => .ok (some b)
  | null => .ok none
  | v => .error (.wrongType "BOOL" v)

def Value.ofTruth : Option Bool → Value
  | some b => bool b
  | none => null

namespace LogicalOp

def symbol : LogicalOp → String
  | and => "AND"
  | or => "OR"

/-- The connective of three-valued logic. -/
def connect : LogicalOp → Option Bool → Option Bool → Option Bool
  | and, some false, _ => some false
  | and, _, some false => some false
  | and, some true, some true => some true
  | or, some true, _ => some true
  | or, _, some true => some true
  | or, some false, some false => some false
  | _, _, _ => none

def apply (op : LogicalOp) (left right : Value) : Except EvalError Value := do
  let l ← left.truth?
  let r ← right.truth?
  return .ofTruth (op.connect l r)

end LogicalOp

namespace BinaryOp

def symbol : BinaryOp → String
  | arithmetic op => op.symbol
  | comparison op => op.symbol
  | logical op => op.symbol

def isComparison : BinaryOp → Bool
  | comparison _ => true
  | _ => false

def apply (op : BinaryOp) (left right : Value) : Except EvalError Value :=
  match op with
  | logical op => op.apply left right
  | comparison op => if left.isNull || right.isNull then .ok .null else op.apply left right
  | arithmetic op => if left.isNull || right.isNull then .ok .null else op.apply left right

end BinaryOp

def UnaryOp.apply : UnaryOp → Value → Except EvalError Value
  | _, .null => .ok .null
  | not, .bool b => .ok (.bool !b)
  | not, v => .error (.wrongType "BOOL" v)
  | neg, .int64 n => checkedOr ("-(" ++ intText n.toInt ++ ")") (checked (-n.toInt))
  | neg, .float32 x => .ok (.float32 x.neg)
  | neg, .float64 x => .ok (.float64 x.neg)
  | neg, v => .error (.wrongType "numeric" v)

end Columnar
