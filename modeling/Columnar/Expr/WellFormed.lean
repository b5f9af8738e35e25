import Columnar.Expr.Basic

/-!
# Well-formed expressions

The expressions that mean something, said by their parts: functions are known and get a number of
arguments they take, no aggregate lies below another, only counting runs over the rows themselves,
and no alias is empty.
-/

namespace Columnar.Expr

mutual

def subexpressions : Expr → List Expr
  | literal value => [literal value]
  | column name => [column name]
  | binary left op right => binary left op right :: (left.subexpressions ++ right.subexpressions)
  | unary op operand => unary op operand :: operand.subexpressions
  | call name arguments => call name arguments :: subexpressionsOf arguments
  | aggregate function argument => aggregate function argument :: argument.subexpressions
  | aggregateRows function => [aggregateRows function]
  | named inner name => named inner name :: inner.subexpressions

def subexpressionsOf : List Expr → List Expr
  | [] => []
  | e :: rest => e.subexpressions ++ subexpressionsOf rest

end

inductive IsAggregate : Expr → Prop where
  | aggregate (function : AggregateFunction) (argument : Expr) :
      IsAggregate (.aggregate function argument)
  | aggregateRows (function : AggregateFunction) : IsAggregate (.aggregateRows function)

inductive WellFormed : Expr → Prop where
  | literal (value : Value) : WellFormed (.literal value)
  | column (name : String) : WellFormed (.column name)
  | binary {left right : Expr} (op : BinaryOp) (hleft : WellFormed left)
      (hright : WellFormed right) : WellFormed (.binary left op right)
  | unary {operand : Expr} (op : UnaryOp) (hoperand : WellFormed operand) :
      WellFormed (.unary op operand)
  | call {name : String} {arguments : List Expr} (function : ScalarFunction)
      (hname : function.name.toList = name.toList.map Char.toUpper)
      (harity : function.accepts arguments.length = true)
      (harguments : ∀ e ∈ arguments, WellFormed e) : WellFormed (.call name arguments)
  | aggregate {argument : Expr} (function : AggregateFunction)
      (hflat : ∀ e ∈ argument.subexpressions, ¬ e.IsAggregate) (hargument : WellFormed argument) :
      WellFormed (.aggregate function argument)
  | countRows : WellFormed (.aggregateRows .count)
  | named {inner : Expr} {name : String} (hname : name ≠ "") (hinner : WellFormed inner) :
      WellFormed (.named inner name)

/-! ### Aggregates and columns below an expression -/

theorem self_mem_subexpressions (e : Expr) : e ∈ e.subexpressions := by
  cases e <;> simp [subexpressions]

mutual

theorem containsAggregate_iff (e : Expr) :
    e.containsAggregate = true ↔ ∃ d ∈ e.subexpressions, d.IsAggregate := by
  match e with
  | literal _ =>
    simp only [containsAggregate, subexpressions, List.mem_singleton, exists_eq_left,
      Bool.false_eq_true, false_iff]
    nofun
  | column _ =>
    simp only [containsAggregate, subexpressions, List.mem_singleton, exists_eq_left,
      Bool.false_eq_true, false_iff]
    nofun
  | binary left op right =>
    have hself : ¬ (binary left op right).IsAggregate := nofun
    simp [containsAggregate, subexpressions, containsAggregate_iff left,
      containsAggregate_iff right, hself, or_and_right, exists_or]
  | unary op operand =>
    have hself : ¬ (unary op operand).IsAggregate := nofun
    simp [containsAggregate, subexpressions, containsAggregate_iff operand, hself]
  | call name arguments =>
    have hself : ¬ (call name arguments).IsAggregate := nofun
    simp [containsAggregate, subexpressions, anyContainsAggregate_iff arguments, hself]
  | aggregate function argument =>
    simp only [containsAggregate, true_iff]
    exact ⟨_, self_mem_subexpressions _, .aggregate function argument⟩
  | aggregateRows function =>
    simp only [containsAggregate, true_iff]
    exact ⟨_, self_mem_subexpressions _, .aggregateRows function⟩
  | named inner name =>
    have hself : ¬ (named inner name).IsAggregate := nofun
    simp [containsAggregate, subexpressions, containsAggregate_iff inner, hself]

theorem anyContainsAggregate_iff (es : List Expr) :
    anyContainsAggregate es = true ↔ ∃ d ∈ subexpressionsOf es, d.IsAggregate := by
  match es with
  | [] => simp [anyContainsAggregate, subexpressionsOf]
  | e :: rest =>
    simp [anyContainsAggregate, subexpressionsOf, containsAggregate_iff e,
      anyContainsAggregate_iff rest, or_and_right, exists_or]

end

mutual

theorem mem_columnNames_iff (name : String) (e : Expr) :
    name ∈ e.columnNames ↔ column name ∈ e.subexpressions := by
  match e with
  | literal _ | column _ | aggregateRows _ => simp [columnNames, subexpressions]
  | binary left op right =>
    simp [columnNames, subexpressions, mem_columnNames_iff name left,
      mem_columnNames_iff name right]
  | unary op operand => simp [columnNames, subexpressions, mem_columnNames_iff name operand]
  | call _ arguments => simp [columnNames, subexpressions, mem_columnNamesOf_iff name arguments]
  | aggregate _ argument => simp [columnNames, subexpressions, mem_columnNames_iff name argument]
  | named inner _ => simp [columnNames, subexpressions, mem_columnNames_iff name inner]

theorem mem_columnNamesOf_iff (name : String) (es : List Expr) :
    name ∈ columnNamesOf es ↔ column name ∈ subexpressionsOf es := by
  match es with
  | [] => simp [columnNamesOf, subexpressionsOf]
  | e :: rest =>
    simp [columnNamesOf, subexpressionsOf, mem_columnNames_iff name e,
      mem_columnNamesOf_iff name rest]

end

end Columnar.Expr
