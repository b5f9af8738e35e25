/-!
# The failure collector

Failures are recorded under the position of the expression that failed. Of two failures at one
position the first counts, and taking removes the failure of the lowest position, so what is taken
does not depend on the order in which different positions were recorded.
-/

namespace Columnar

/-- Failures in ascending order of their positions. -/
structure Failures (ε : Type) where
  entries : List (Nat × ε)
deriving DecidableEq

namespace Failures

variable {ε : Type}

def empty : Failures ε := ⟨[]⟩

def insertEntry (position : Nat) (failure : ε) : List (Nat × ε) → List (Nat × ε)
  | [] => [(position, failure)]
  | (p, f) :: rest =>
    if position < p then (position, failure) :: (p, f) :: rest
    else if position = p then (p, f) :: rest
    else (p, f) :: insertEntry position failure rest

/-- Records a failure, unless one is already recorded at its position. -/
def record (failures : Failures ε) (position : Nat) (failure : ε) : Failures ε :=
  ⟨insertEntry position failure failures.entries⟩

def takeFirst (failures : Failures ε) : Option (Nat × ε) × Failures ε :=
  match failures.entries with
  | [] => (none, failures)
  | first :: rest => (some first, ⟨rest⟩)

def size (failures : Failures ε) : Nat := failures.entries.length

def isEmpty (failures : Failures ε) : Bool := failures.entries.isEmpty

def get? (failures : Failures ε) (position : Nat) : Option ε := failures.entries.lookup position

end Failures

end Columnar
