import Columnar.Proofs.Node.Tree

/-!
# Compiled nodes

What later facts need of a node that compilation gave: it has seen no row (`fresh_of_compile`), and
no aggregate in it lies below another (`flat_of_compile`).
-/

namespace Columnar

namespace Expr

@[induction_eliminator]
theorem tree_induction {motive : Expr → Prop}
    (literal : ∀ value, motive (.literal value))
    (column : ∀ name, motive (.column name))
    (binary : ∀ left op right, motive left → motive right → motive (.binary left op right))
    (unary : ∀ op operand, motive operand → motive (.unary op operand))
    (call : ∀ name arguments, (∀ e ∈ arguments, motive e) → motive (.call name arguments))
    (aggregate : ∀ function argument, motive argument → motive (.aggregate function argument))
    (aggregateRows : ∀ function, motive (.aggregateRows function))
    (named : ∀ inner name, motive inner → motive (.named inner name)) (e : Expr) : motive e := by
  refine @Expr.rec motive (fun es => ∀ e ∈ es, motive e)
    literal column binary unary call aggregate aggregateRows named ?_ ?_ e
  · intro e he
    exact absurd he List.not_mem_nil
  · intro e rest he hrest d hd
    rcases List.mem_cons.1 hd with rfl | hd
    · exact he
    · exact hrest d hd

@[simp] theorem compileAll_eq_mapM (es : List Expr) : compileAll es = es.mapM compile := by
  induction es with
  | nil => rfl
  | cons e rest ih => rw [compileAll, ih, List.mapM_cons]

@[simp] theorem anyContainsAggregate_eq_any (es : List Expr) :
    anyContainsAggregate es = es.any containsAggregate := by
  induction es with
  | nil => rfl
  | cons e rest ih => rw [anyContainsAggregate, ih, List.any_cons]

/-! ### What a compiled node is made of -/

theorem compile_binary_iff {left right : Expr} {op : BinaryOp} {n : Node} :
    (binary left op right).compile = .ok n ↔
      ∃ l r, left.compile = .ok l ∧ right.compile = .ok r ∧ n = .ofBinary l op r := by
  rw [compile, bind_eq_ok_iff]
  simp only [bind_eq_ok_iff]
  constructor
  · intro hparts
    obtain ⟨l, hl, r, hr, h⟩ := hparts
    exact ⟨l, r, hl, hr, (Except.ok.inj h).symm⟩
  · intro hparts
    obtain ⟨l, r, hl, hr, rfl⟩ := hparts
    exact ⟨l, hl, r, hr, rfl⟩

theorem compile_unary_iff {operand : Expr} {op : UnaryOp} {n : Node} :
    (unary op operand).compile = .ok n ↔ ∃ o, operand.compile = .ok o ∧ n = .ofUnary op o := by
  rw [compile, bind_eq_ok_iff]
  refine exists_congr fun o => and_congr_right fun _ => ?_
  exact ⟨fun h => (Except.ok.inj h).symm, fun h => h ▸ rfl⟩

theorem compile_call_iff {name : String} {arguments : List Expr} {n : Node} :
    (call name arguments).compile = .ok n ↔
      ∃ function ns, ScalarFunction.ofName? name = some function ∧
        function.accepts arguments.length = true ∧ arguments.mapM compile = .ok ns ∧
        n = .ofCall function ns := by
  rw [compile, compileAll_eq_mapM]
  constructor
  · intro h
    split at h
    · cases h
    · next function hname =>
      split at h
      · next harity =>
        obtain ⟨ns, hns, h⟩ := bind_eq_ok_iff.1 h
        exact ⟨function, ns, hname, harity, hns, (Except.ok.inj h).symm⟩
      · cases h
  · intro hparts
    obtain ⟨function, ns, hname, harity, hns, rfl⟩ := hparts
    rw [hname]
    dsimp only
    rw [if_pos harity, hns]
    rfl

theorem compile_aggregate_iff {function : AggregateFunction} {argument : Expr} {n : Node} :
    (aggregate function argument).compile = .ok n ↔
      argument.containsAggregate = false ∧
        ∃ a, argument.compile = .ok a ∧ n = .ofAggregate function a := by
  rw [compile]
  constructor
  · intro h
    split at h
    · cases h
    · next hflat =>
      obtain ⟨a, ha, h⟩ := bind_eq_ok_iff.1 h
      exact ⟨Bool.eq_false_iff.2 hflat, a, ha, (Except.ok.inj h).symm⟩
  · intro hparts
    obtain ⟨hflat, a, ha, rfl⟩ := hparts
    rw [if_neg (Bool.eq_false_iff.1 hflat), ha]
    rfl

theorem compile_aggregateRows_iff {function : AggregateFunction} {n : Node} :
    (aggregateRows function).compile = .ok n ↔
      function = .count ∧ n = .ofAggregateRows function := by
  rw [compile]
  constructor
  · intro h
    split at h
    · next hcount => exact ⟨hcount, (Except.ok.inj h).symm⟩
    · cases h
  · intro hparts
    obtain ⟨hcount, rfl⟩ := hparts
    rw [if_pos hcount]

theorem compile_named_iff {inner : Expr} {name : String} {n : Node} :
    (named inner name).compile = .ok n ↔
      name ≠ "" ∧ ∃ i, inner.compile = .ok i ∧ n = .named i name := by
  rw [compile]
  constructor
  · intro h
    split at h
    · cases h
    · next hname =>
      obtain ⟨i, hi, h⟩ := bind_eq_ok_iff.1 h
      exact ⟨hname, i, hi, (Except.ok.inj h).symm⟩
  · intro hparts
    obtain ⟨hname, i, hi, rfl⟩ := hparts
    rw [if_neg hname, hi]
    rfl

theorem fresh_of_compile {e : Expr} {n : Node} (h : e.compile = .ok n) : n.fresh = n := by
  induction e generalizing n with
  | literal value | column name =>
    cases h
    rfl
  | binary left op right hleft hright =>
    obtain ⟨l, r, hl, hr, rfl⟩ := compile_binary_iff.1 h
    rw [Node.ofBinary, Node.fresh, hleft hl, hright hr, Node.ofBinary]
  | unary op operand ih =>
    obtain ⟨o, ho, rfl⟩ := compile_unary_iff.1 h
    rw [Node.ofUnary, Node.fresh, ih ho, Node.ofUnary]
  | call name arguments ih =>
    obtain ⟨function, ns, -, -, hns, rfl⟩ := compile_call_iff.1 h
    have hfresh := forall_of_mapM_eq_ok hns fun e he n hn => ih e he hn
    have hsame : ns.map Node.fresh = ns := (List.map_congr_left hfresh).trans (List.map_id' ns)
    rw [Node.ofCall, Node.fresh, Node.freshAll_eq_map, hsame, Node.ofCall]
  | aggregate function argument ih =>
    obtain ⟨-, a, ha, rfl⟩ := compile_aggregate_iff.1 h
    rw [Node.ofAggregate, Node.fresh, ih ha, Node.ofAggregate]
  | aggregateRows function =>
    obtain ⟨-, rfl⟩ := compile_aggregateRows_iff.1 h
    rfl
  | named inner name ih =>
    obtain ⟨-, i, hi, rfl⟩ := compile_named_iff.1 h
    rw [Node.fresh, ih hi]

theorem containsAggregate_of_compile {e : Expr} {n : Node} (h : e.compile = .ok n) :
    n.containsAggregate = e.containsAggregate := by
  induction e generalizing n with
  | literal value | column name =>
    cases h
    rfl
  | binary left op right hleft hright =>
    obtain ⟨l, r, hl, hr, rfl⟩ := compile_binary_iff.1 h
    rw [Node.ofBinary, Node.containsAggregate, hleft hl, hright hr, containsAggregate]
  | unary op operand ih =>
    obtain ⟨o, ho, rfl⟩ := compile_unary_iff.1 h
    rw [Node.ofUnary, Node.containsAggregate, ih ho, containsAggregate]
  | call name arguments ih =>
    obtain ⟨function, ns, -, -, hns, rfl⟩ := compile_call_iff.1 h
    have hsame : ns.map Node.containsAggregate = arguments.map containsAggregate :=
      map_eq_map_of_mapM_eq_ok hns fun e he n hn => ih e he hn
    have hany := congrArg (List.any · id) hsame
    rw [List.any_map, List.any_map] at hany
    rw [Node.ofCall, Node.containsAggregate, containsAggregate, Node.anyContainsAggregate_eq_any,
      anyContainsAggregate_eq_any]
    exact hany
  | aggregate function argument ih =>
    obtain ⟨-, a, -, rfl⟩ := compile_aggregate_iff.1 h
    rfl
  | aggregateRows function =>
    obtain ⟨-, rfl⟩ := compile_aggregateRows_iff.1 h
    rfl
  | named inner name ih =>
    obtain ⟨-, i, hi, rfl⟩ := compile_named_iff.1 h
    rw [Node.containsAggregate, ih hi, containsAggregate]

end Expr

namespace Node

mutual

/-- No aggregate lies below another. -/
def Flat : Node → Prop
  | constant _ | column _ _ | aggregateRows _ _ | probe _ _ _ => True
  | binary left _ right _ => left.Flat ∧ right.Flat
  | unary _ operand _ => operand.Flat
  | call _ arguments _ => FlatAll arguments
  | aggregate _ argument _ => argument.containsAggregate = false
  | named inner _ => inner.Flat

def FlatAll : List Node → Prop
  | [] => True
  | n :: rest => n.Flat ∧ FlatAll rest

end

@[simp] theorem flatAll_iff {ns : List Node} : FlatAll ns ↔ ∀ n ∈ ns, n.Flat := by
  induction ns with
  | nil => simp [FlatAll]
  | cons n rest ih => rw [FlatAll, ih, List.forall_mem_cons]

theorem flat_fresh_iff (n : Node) : n.fresh.Flat ↔ n.Flat := by
  induction n with
  | constant | column | aggregateRows | probe => exact Iff.rfl
  | binary left op right current hleft hright =>
    rw [fresh, ofBinary, Flat, hleft, hright, Flat]
  | unary op operand current ih => rw [fresh, ofUnary, Flat, ih, Flat]
  | call function arguments current ih =>
    rw [fresh, ofCall, Flat, Flat, flatAll_iff, flatAll_iff, freshAll_eq_map, List.forall_mem_map]
    exact forall₂_congr ih
  | aggregate function argument acc ih =>
    rw [fresh, ofAggregate, Flat, containsAggregate_fresh, Flat]
  | named inner name ih => rw [fresh, Flat, ih, Flat]

end Node

theorem Expr.flat_of_compile {e : Expr} {n : Node} (h : e.compile = .ok n) : n.Flat := by
  induction e generalizing n with
  | literal value | column name =>
    cases h
    trivial
  | binary left op right hleft hright =>
    obtain ⟨l, r, hl, hr, rfl⟩ := compile_binary_iff.1 h
    exact ⟨hleft hl, hright hr⟩
  | unary op operand ih =>
    obtain ⟨o, ho, rfl⟩ := compile_unary_iff.1 h
    rw [Node.ofUnary, Node.Flat]
    exact ih ho
  | call name arguments ih =>
    obtain ⟨function, ns, -, -, hns, rfl⟩ := compile_call_iff.1 h
    rw [Node.ofCall, Node.Flat, Node.flatAll_iff]
    exact forall_of_mapM_eq_ok hns fun e he n hn => ih e he hn
  | aggregate function argument ih =>
    obtain ⟨hflat, a, ha, rfl⟩ := compile_aggregate_iff.1 h
    exact (containsAggregate_of_compile ha).trans hflat
  | aggregateRows function =>
    obtain ⟨-, rfl⟩ := compile_aggregateRows_iff.1 h
    trivial
  | named inner name ih =>
    obtain ⟨-, i, hi, rfl⟩ := compile_named_iff.1 h
    rw [Node.Flat]
    exact ih hi

/-! ### Plans -/

namespace Plan

variable {plan : Plan} {nodes : List Node}

theorem compile_eq_ok_iff :
    plan.compile = .ok nodes ↔
      List.Forall₂ (fun e n => e.compile = .ok n) plan.expressions nodes := by
  unfold Plan.compile
  rw [Expr.compileAll_eq_mapM, mapM_eq_ok_iff]

theorem exists_of_mem_compile (h : plan.compile = .ok nodes) {n : Node} (hn : n ∈ nodes) :
    ∃ e ∈ plan.expressions, e.compile = .ok n := by
  have hsource : ∀ n ∈ nodes, ∃ e ∈ plan.expressions, e.compile = .ok n :=
    forall_of_mapM_eq_ok (mapM_eq_ok_iff.2 (compile_eq_ok_iff.1 h))
      fun e he n hcompile => ⟨e, he, hcompile⟩
  exact hsource n hn

theorem fresh_of_mem_compile (h : plan.compile = .ok nodes) {n : Node} (hn : n ∈ nodes) :
    n.fresh = n := by
  obtain ⟨e, -, hcompile⟩ := exists_of_mem_compile h hn
  exact Expr.fresh_of_compile hcompile

end Plan

end Columnar
