import Columnar.Proofs.Expr.Compilation
import Columnar.Proofs.Expr.Subexpressions
import Columnar.Proofs.Node.RowParts

/-!
# Expressions that read columns in aggregates only

If every column reference lies inside an aggregate, the parts that a row reaches are of two kinds:
aggregates of the expression, over arguments without aggregates, and trees that read no column at
all. What a row brings is seen by the first kind alone.
-/

namespace Columnar.Expr

/-- Every column reference lies inside an aggregate. -/
inductive ColumnsAggregated : Expr → Prop where
  | literal (value : Value) : ColumnsAggregated (.literal value)
  | binary {left right : Expr} (op : BinaryOp) (hleft : ColumnsAggregated left)
      (hright : ColumnsAggregated right) : ColumnsAggregated (.binary left op right)
  | unary {operand : Expr} (op : UnaryOp) (hoperand : ColumnsAggregated operand) :
      ColumnsAggregated (.unary op operand)
  | call {arguments : List Expr} (name : String)
      (harguments : ∀ e ∈ arguments, ColumnsAggregated e) : ColumnsAggregated (.call name arguments)
  | aggregate (function : AggregateFunction) (argument : Expr) :
      ColumnsAggregated (.aggregate function argument)
  | aggregateRows (function : AggregateFunction) : ColumnsAggregated (.aggregateRows function)
  | named {inner : Expr} (name : String) (hinner : ColumnsAggregated inner) :
      ColumnsAggregated (.named inner name)

theorem ColumnsAggregated.columnNames_eq_nil {e : Expr} (h : e.ColumnsAggregated)
    (hlevel : e.containsAggregate = false) : e.columnNames = [] := by
  induction h with
  | literal value => rfl
  | binary op _ _ hleft hright =>
    obtain ⟨hl, hr⟩ := Bool.or_eq_false_iff.1 hlevel
    rw [columnNames, hleft hl, hright hr]
    rfl
  | unary op _ ih => exact ih hlevel
  | call name _ ih =>
    rw [containsAggregate, anyContainsAggregate_eq_any, List.any_eq_false] at hlevel
    rw [columnNames, columnNamesOf_eq_flatMap, List.flatMap_eq_nil_iff]
    exact fun e he => ih e he (Bool.eq_false_iff.2 (hlevel e he))
  | aggregate | aggregateRows => cases hlevel
  | named name _ ih => exact ih hlevel

/-- A part that a row reaches: an aggregate of the expression, or a tree that reads no column. -/
inductive PartOf (e : Expr) : Node → Prop where
  | aggregate {function : AggregateFunction} {argument : Expr} {a : Node}
      (hmem : aggregate function argument ∈ e.subexpressions)
      (hflat : argument.containsAggregate = false) (ha : argument.compile = .ok a) :
      PartOf e (.ofAggregate function a)
  | columnless {n : Node} (hfresh : n.fresh = n) (hcolumns : n.columnNames = []) : PartOf e n

theorem PartOf.mono {d e : Expr} {n : Node} (h : d.PartOf n) (hd : d ∈ e.subexpressions) :
    e.PartOf n := by
  cases h with
  | aggregate hmem hflat ha => exact .aggregate (subexpressions_trans hmem hd) hflat ha
  | columnless hfresh hcolumns => exact .columnless hfresh hcolumns

theorem ColumnsAggregated.partOf_self {e : Expr} {n : Node} (h : e.ColumnsAggregated)
    (hcompile : e.compile = .ok n) (hlevel : n.containsAggregate = false) : e.PartOf n := by
  refine .columnless (fresh_of_compile hcompile) ?_
  rw [columnNames_of_compile hcompile]
  exact h.columnNames_eq_nil ((containsAggregate_of_compile hcompile).symm.trans hlevel)

theorem ColumnsAggregated.partOf {e : Expr} {n part : Node} (h : e.ColumnsAggregated)
    (hcompile : e.compile = .ok n) (hpart : part ∈ n.rowParts) : e.PartOf part := by
  induction h generalizing n with
  | literal value =>
    cases hcompile
    obtain rfl := List.mem_singleton.1 hpart
    exact .columnless rfl rfl
  | @binary left right op hl hr hleft hright =>
    obtain ⟨l, r, hlc, hrc, rfl⟩ := compile_binary_iff.1 hcompile
    rw [Node.ofBinary, Node.rowParts] at hpart
    split at hpart
    · rcases List.mem_append.1 hpart with hpart | hpart
      · exact (hleft hlc hpart).mono (left_mem_subexpressions left op right)
      · exact (hright hrc hpart).mono (right_mem_subexpressions left op right)
    · next heager =>
      obtain rfl := List.mem_singleton.1 hpart
      exact partOf_self (.binary op hl hr) hcompile (Bool.eq_false_iff.2 heager)
  | @unary operand op ho ih =>
    obtain ⟨o, hoc, rfl⟩ := compile_unary_iff.1 hcompile
    rw [Node.ofUnary, Node.rowParts] at hpart
    split at hpart
    · exact (ih hoc hpart).mono (operand_mem_subexpressions op operand)
    · next heager =>
      obtain rfl := List.mem_singleton.1 hpart
      exact partOf_self (.unary op ho) hcompile (Bool.eq_false_iff.2 heager)
  | @call arguments name hargs ih =>
    obtain ⟨function, ns, -, -, hns, rfl⟩ := compile_call_iff.1 hcompile
    rw [Node.ofCall, Node.rowParts, Node.rowPartsOf_eq_flatMap] at hpart
    split at hpart
    · obtain ⟨n, hn, hpart⟩ := List.mem_flatMap.1 hpart
      have hbelow : ∀ n ∈ ns, part ∈ n.rowParts → (Expr.call name arguments).PartOf part := by
        exact forall_of_mapM_eq_ok hns fun e he n hec hpart =>
          (ih e he hec hpart).mono (mem_subexpressions_call name he)
      exact hbelow n hn hpart
    · next heager =>
      obtain rfl := List.mem_singleton.1 hpart
      exact partOf_self (.call name hargs) hcompile (Bool.eq_false_iff.2 heager)
  | aggregate function argument =>
    obtain ⟨hflat, a, ha, rfl⟩ := compile_aggregate_iff.1 hcompile
    obtain rfl := List.mem_singleton.1 hpart
    exact .aggregate (self_mem_subexpressions _) hflat ha
  | aggregateRows function =>
    obtain ⟨-, rfl⟩ := compile_aggregateRows_iff.1 hcompile
    obtain rfl := List.mem_singleton.1 hpart
    exact .columnless rfl rfl
  | @named inner name _ ih =>
    obtain ⟨-, i, hi, rfl⟩ := compile_named_iff.1 hcompile
    exact (ih hi hpart).mono (inner_mem_subexpressions inner _)

end Columnar.Expr
