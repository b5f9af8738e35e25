import Columnar.Expr.Text
import Columnar.Expr.WellFormed
import Columnar.Proofs.Compile

/-!
# Parts of expressions

An expression lies below another one if it is among its subexpressions, which is a transitive
relation. What is said of all subexpressions is therefore handed down to every part.
-/

namespace Columnar.Expr

@[simp] theorem subexpressionsOf_eq_flatMap (es : List Expr) :
    subexpressionsOf es = es.flatMap subexpressions := by
  induction es with
  | nil => rfl
  | cons e rest ih => rw [subexpressionsOf, ih, List.flatMap_cons]

theorem subexpressions_trans {c d e : Expr} (hcd : c ∈ d.subexpressions)
    (hde : d ∈ e.subexpressions) : c ∈ e.subexpressions := by
  have hdown : ∀ (e : Expr) (below : List Expr), e.subexpressions = e :: below →
      (d ∈ below → c ∈ below) → d ∈ e.subexpressions → c ∈ e.subexpressions := by
    intro e below he hbelow hd
    rw [he] at hd
    rcases List.mem_cons.1 hd with rfl | hd
    · exact hcd
    · rw [he]
      exact List.mem_cons_of_mem e (hbelow hd)
  clear hcd
  induction e with
  | literal | column | aggregateRows => exact hdown _ [] rfl (absurd · List.not_mem_nil) hde
  | binary left op right hleft hright =>
    refine hdown _ _ rfl (fun hd => ?_) hde
    exact List.mem_append.2 ((List.mem_append.1 hd).imp hleft hright)
  | unary op operand ih => exact hdown _ _ rfl ih hde
  | call name arguments ih =>
    refine hdown _ _ rfl (fun hd => ?_) hde
    rw [subexpressionsOf_eq_flatMap, List.mem_flatMap] at hd ⊢
    obtain ⟨argument, hargument, hd⟩ := hd
    exact ⟨argument, hargument, ih argument hargument hd⟩
  | aggregate function argument ih => exact hdown _ _ rfl ih hde
  | named inner name ih => exact hdown _ _ rfl ih hde

theorem columnNames_subset_of_mem {d e : Expr} (hd : d ∈ e.subexpressions) :
    d.columnNames ⊆ e.columnNames := by
  intro name hname
  rw [mem_columnNames_iff] at hname ⊢
  exact subexpressions_trans hname hd

theorem left_mem_subexpressions (left : Expr) (op : BinaryOp) (right : Expr) :
    left ∈ (binary left op right).subexpressions :=
  List.mem_cons_of_mem _ (List.mem_append_left _ (self_mem_subexpressions left))

theorem right_mem_subexpressions (left : Expr) (op : BinaryOp) (right : Expr) :
    right ∈ (binary left op right).subexpressions :=
  List.mem_cons_of_mem _ (List.mem_append_right _ (self_mem_subexpressions right))

theorem operand_mem_subexpressions (op : UnaryOp) (operand : Expr) :
    operand ∈ (unary op operand).subexpressions :=
  List.mem_cons_of_mem _ (self_mem_subexpressions operand)

theorem mem_subexpressions_call {arguments : List Expr} {e : Expr} (name : String)
    (he : e ∈ arguments) : e ∈ (call name arguments).subexpressions := by
  refine List.mem_cons_of_mem _ ?_
  rw [subexpressionsOf_eq_flatMap]
  exact List.mem_flatMap.2 ⟨e, he, self_mem_subexpressions e⟩

theorem argument_mem_subexpressions (function : AggregateFunction) (argument : Expr) :
    argument ∈ (aggregate function argument).subexpressions :=
  List.mem_cons_of_mem _ (self_mem_subexpressions argument)

theorem inner_mem_subexpressions (inner : Expr) (name : String) :
    inner ∈ (named inner name).subexpressions :=
  List.mem_cons_of_mem _ (self_mem_subexpressions inner)

theorem withoutAliases_eq_self {e : Expr} (h : ∀ inner name, named inner name ∉ e.subexpressions) :
    e.withoutAliases = e := by
  induction e with
  | literal | column | aggregateRows => rfl
  | binary left op right hleft hright =>
    have hl := hleft fun inner name hmem =>
      h inner name (subexpressions_trans hmem (left_mem_subexpressions left op right))
    have hr := hright fun inner name hmem =>
      h inner name (subexpressions_trans hmem (right_mem_subexpressions left op right))
    rw [withoutAliases, hl, hr]
  | unary op operand ih =>
    have ho := ih fun inner name hmem =>
      h inner name (subexpressions_trans hmem (operand_mem_subexpressions op operand))
    rw [withoutAliases, ho]
  | call name arguments ih =>
    have hmap : arguments.map withoutAliases = arguments.map fun e => e :=
      List.map_congr_left fun e he => ih e he fun inner other hmem =>
        h inner other (subexpressions_trans hmem (mem_subexpressions_call name he))
    rw [withoutAliases, withoutAliasesAll_eq_map, hmap, List.map_id']
  | aggregate function argument ih =>
    have ha := ih fun inner name hmem =>
      h inner name (subexpressions_trans hmem (argument_mem_subexpressions function argument))
    rw [withoutAliases, ha]
  | named inner name => exact absurd (self_mem_subexpressions _) (h inner name)

end Columnar.Expr
