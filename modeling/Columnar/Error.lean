import Columnar.Text.Numeral

/-!
# Errors

What can go wrong when one value is computed, and when a batch is reduced. Each cause has one
message. A step that works in place leaves a state behind whether it succeeds or not, and reports a
failure beside it; `stepOutcome` forgets the state that a failure leaves.
-/

namespace Columnar

/-! ### Steps in place -/

/-- What comes of a step: the state it leaves, or the failure it reports. -/
def stepOutcome {σ ε : Type} : σ × Option ε → Except ε σ
  | (state, none) => .ok state
  | (_, some e) => .error e

instance coeOutcome {σ ε : Type} : Coe (σ × Option ε) (Except ε σ) := ⟨stepOutcome⟩

variable {σ ε : Type}

theorem stepOutcome_eq_ok_iff {step : σ × Option ε} {state : σ} :
    stepOutcome step = .ok state ↔ step = (state, none) := by
  obtain ⟨left, _ | e⟩ := step <;> simp [stepOutcome]

theorem stepOutcome_eq_error_iff {step : σ × Option ε} {e : ε} :
    stepOutcome step = .error e ↔ step.2 = some e := by
  obtain ⟨left, _ | d⟩ := step <;> simp [stepOutcome]

/-! ### Failures -/

inductive EvalError where
  | typeMismatch (expected actual : String)
  | overflow (operation : String)
  | divisionByZero
  | missingField (name : String)
deriving DecidableEq, Repr

def EvalError.message : EvalError → String
  | typeMismatch expected actual => "Type error: expected " ++ expected ++ ", got " ++ actual
  | overflow operation => "Arithmetic overflow: " ++ operation
  | divisionByZero => "Division by zero"
  | missingField name => "Missing field: " ++ name

/-- A failure to build, read, exchange or reduce a batch. -/
inductive ReduceError where
  | compile (detail : String)
  | unknownColumn (name : String)
  | eval (error : EvalError)
  | unsupportedType (detail : String)
  | rowArity (expected actual : Nat)
  | invalidBatch (detail : String)
  | threadPanic (detail : String)
  | threadPool (detail : String)
  | arrow (detail : String)
deriving DecidableEq, Repr

def ReduceError.message : ReduceError → String
  | compile detail => "Compile error: " ++ detail
  | unknownColumn name => "Unknown column: " ++ name
  | eval error => "Evaluation error: " ++ error.message
  | unsupportedType detail => "Unsupported type: " ++ detail
  | rowArity expected actual =>
    "Row arity mismatch: expected " ++ natText expected ++ " values, got " ++ natText actual
  | invalidBatch detail => "Invalid batch: " ++ detail
  | threadPanic detail => "Worker thread panicked: " ++ detail
  | threadPool detail => "Thread pool error: " ++ detail
  | arrow detail => "Arrow error: " ++ detail

end Columnar
