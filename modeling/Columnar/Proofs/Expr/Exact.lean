import Columnar.Proofs.Expr.Compilation
import Columnar.Proofs.Expr.Subexpressions
import Columnar.Proofs.Node.RowLevel
import Columnar.Proofs.Value.Order

/-!
# Exact expressions

No operator or function makes a float of values that are not floats: two numbers are brought to a
common type only if they are of different types, and of the exact types one is a number. So an
expression without float literals has exact values on rows whose values are exact.
-/

namespace Columnar

/-! ### Operators and functions -/

theorem Value.promote_of_exact {v w : Value} (hv : v.isFloat = false) (hw : w.isFloat = false) :
    v.promote w = (v, w) := by
  unfold promote
  split
  · rfl
  · next htypes =>
    cases v with
    | float32 | float64 => cases hv
    | int64 n =>
      cases w with
      | float32 | float64 => cases hw
      | int64 m => exact absurd rfl htypes
      | _ => rfl
    | _ => rfl

theorem isFloat_of_checkedOr {operation : String} {result : Option Int64} {v : Value}
    (h : checkedOr operation result = .ok v) : v.isFloat = false := by
  cases result with
  | none => cases h
  | some n =>
    cases h
    rfl

theorem Value.isFloat_ofTruth (t : Option Bool) : (Value.ofTruth t).isFloat = false := by
  cases t <;> rfl

theorem ArithmeticOp.isFloat_of_apply {op : ArithmeticOp} {left right v : Value}
    (hleft : left.isFloat = false) (hright : right.isFloat = false)
    (h : op.apply left right = .ok v) : v.isFloat = false := by
  unfold ArithmeticOp.apply at h
  rw [Value.promote_of_exact hleft hright] at h
  split at h
  · split at h
    · cases h
    · exact isFloat_of_checkedOr h
  · next hpair =>
    cases hpair
    cases hleft
  · next hpair =>
    cases hpair
    cases hleft
  · cases h

theorem BinaryOp.isFloat_of_apply {op : BinaryOp} {left right v : Value}
    (hleft : left.isFloat = false) (hright : right.isFloat = false)
    (h : op.apply left right = .ok v) : v.isFloat = false := by
  cases op with
  | logical op =>
    obtain ⟨l, -, h⟩ := bind_eq_ok_iff.1 h
    obtain ⟨r, -, h⟩ := bind_eq_ok_iff.1 h
    cases h
    exact Value.isFloat_ofTruth _
  | comparison op =>
    simp only [BinaryOp.apply, ComparisonOp.apply] at h
    split at h
    · cases h
      rfl
    · split at h
      · cases h
        rfl
      · cases h
  | arithmetic op =>
    simp only [BinaryOp.apply] at h
    split at h
    · cases h
      rfl
    · exact ArithmeticOp.isFloat_of_apply hleft hright h

theorem UnaryOp.isFloat_of_apply {op : UnaryOp} {operand v : Value}
    (hoperand : operand.isFloat = false) (h : op.apply operand = .ok v) : v.isFloat = false := by
  unfold UnaryOp.apply at h
  split at h
  case h_4 => exact isFloat_of_checkedOr h
  all_goals
    cases h <;> first | rfl | cases hoperand

theorem ScalarFunction.isFloat_of_applyOne {function : ScalarFunction} {argument v : Value}
    (hargument : argument.isFloat = false) (h : function.applyOne argument = .ok v) :
    v.isFloat = false := by
  unfold ScalarFunction.applyOne at h
  split at h
  case h_1 =>
    cases h
    exact hargument
  case h_3 => exact isFloat_of_checkedOr h
  all_goals
    cases h <;> first | rfl | cases hargument

theorem ScalarFunction.isFloat_of_apply {function : ScalarFunction} {arguments : List Value}
    {v : Value} (harguments : ∀ w ∈ arguments, w.isFloat = false)
    (h : function.apply arguments = .ok v) : v.isFloat = false := by
  cases function with
  | coalesce =>
    cases h
    cases hfound : arguments.find? fun w => !w.isNull with
    | none => rfl
    | some w => exact harguments w (List.mem_of_find?_eq_some hfound)
  | abs | upper | lower | length =>
    refine isFloat_of_applyOne ?_ h
    cases arguments with
    | nil => rfl
    | cons w rest => exact harguments w List.mem_cons_self

/-! ### Expressions -/

/-- The row has no float under these names. -/
def Row.ExactOn (names : List String) (row : Row) : Prop :=
  ∀ name ∈ names, ∀ v, row.get? name = some v → v.isFloat = false

theorem Row.ExactOn.mono {names others : List String} {row : Row} (h : row.ExactOn names)
    (hsub : others ⊆ names) : row.ExactOn others := fun name hname => h name (hsub hname)

namespace Expr

/-- Nothing in the expression brings in a float: no literal is one, and no average is taken. -/
structure Exact (e : Expr) : Prop where
  literal : ∀ v, literal v ∈ e.subexpressions → v.isFloat = false
  average : ∀ argument, aggregate .avg argument ∉ e.subexpressions

theorem Exact.of_mem {d e : Expr} (h : e.Exact) (hd : d ∈ e.subexpressions) : d.Exact :=
  ⟨fun v hv => h.literal v (subexpressions_trans hv hd),
    fun argument ha => h.average argument (subexpressions_trans ha hd)⟩

theorem Exact.isFloat_of_evaluate {e : Expr} {n : Node} (hexact : e.Exact)
    (hcompile : e.compile = .ok n) (hlevel : e.containsAggregate = false) {row : Row}
    (hrow : row.ExactOn e.columnNames) {v : Value} (h : n.evaluate row = .ok v) :
    v.isFloat = false := by
  induction e generalizing n v with
  | literal value =>
    cases hcompile
    cases h
    exact hexact.literal _ (self_mem_subexpressions _)
  | column name =>
    cases hcompile
    rw [Node.ofColumn, Node.evaluate] at h
    cases hget : row.get? name with
    | none =>
      rw [hget] at h
      cases h
    | some w =>
      rw [hget] at h
      cases h
      exact hrow name (List.mem_singleton.2 rfl) _ hget
  | binary left op right hleft hright =>
    obtain ⟨l, r, hl, hr, rfl⟩ := compile_binary_iff.1 hcompile
    obtain ⟨hlevel, hlevel'⟩ := Bool.or_eq_false_iff.1 hlevel
    obtain ⟨lv, hlv, h⟩ := bind_eq_ok_iff.1 h
    obtain ⟨rv, hrv, h⟩ := bind_eq_ok_iff.1 h
    have hlexact := hexact.of_mem (left_mem_subexpressions left op right)
    have hrexact := hexact.of_mem (right_mem_subexpressions left op right)
    exact BinaryOp.isFloat_of_apply
      (hleft hlexact hl hlevel (hrow.mono (List.subset_append_left _ _)) hlv)
      (hright hrexact hr hlevel' (hrow.mono (List.subset_append_right _ _)) hrv)
      (Fault.ofEval_eq_ok_iff.1 h)
  | unary op operand ih =>
    obtain ⟨o, ho, rfl⟩ := compile_unary_iff.1 hcompile
    obtain ⟨ov, hov, h⟩ := bind_eq_ok_iff.1 h
    have hoexact := hexact.of_mem (operand_mem_subexpressions op operand)
    exact UnaryOp.isFloat_of_apply (ih hoexact ho hlevel hrow hov) (Fault.ofEval_eq_ok_iff.1 h)
  | call name arguments ih =>
    obtain ⟨function, ns, -, -, hns, rfl⟩ := compile_call_iff.1 hcompile
    rw [Node.ofCall, Node.evaluate, Node.evaluateAll_eq_mapM] at h
    obtain ⟨vs, hvs, h⟩ := bind_eq_ok_iff.1 h
    refine ScalarFunction.isFloat_of_apply ?_ (Fault.ofEval_eq_ok_iff.1 h)
    have hargument : ∀ n ∈ ns, ∀ v, n.evaluate row = .ok v → v.isFloat = false := by
      refine forall_of_mapM_eq_ok hns fun e he n hn v hv => ?_
      have hbelow := hexact.of_mem (mem_subexpressions_call name he)
      rw [containsAggregate, anyContainsAggregate_eq_any, List.any_eq_false] at hlevel
      exact ih e he hbelow hn (Bool.eq_false_iff.2 (hlevel e he))
        (hrow.mono (columnNames_subset_of_mem (mem_subexpressions_call name he))) hv
    exact forall_of_mapM_eq_ok hvs hargument
  | aggregate | aggregateRows => cases hlevel
  | named inner name ih =>
    obtain ⟨-, i, hi, rfl⟩ := compile_named_iff.1 hcompile
    exact ih (hexact.of_mem (inner_mem_subexpressions inner name)) hi hlevel hrow h

theorem Exact.isFloat_of_mapM {d e : Expr} {n : Node} (hexact : e.Exact)
    (hd : d ∈ e.subexpressions) (hcompile : d.compile = .ok n)
    (hlevel : d.containsAggregate = false) {rows : List Row}
    (hrows : ∀ row ∈ rows, row.ExactOn e.columnNames) {vs : List Value}
    (h : rows.mapM (fun row => n.evaluate row) = .ok vs) : ∀ v ∈ vs, v.isFloat = false :=
  forall_of_mapM_eq_ok h fun row hrow _ hv =>
    (hexact.of_mem hd).isFloat_of_evaluate hcompile hlevel
      ((hrows row hrow).mono (columnNames_subset_of_mem hd)) hv

end Expr

end Columnar
