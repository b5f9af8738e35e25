import Columnar.Expr.Text
import Columnar.Expr.WellFormed
import Columnar.Proofs.Compile
import Columnar.Proofs.Node.Aliases
import Columnar.Reduction.Basic

/-!
# What compilation accepts and keeps

Compilation looks at an expression from the outside in and makes its checks on the way; it accepts
exactly the well-formed expressions (`exists_compile_iff`). What it gives has the shape of the
expression: aggregates and columns lie where they did, and the two texts of the node are the text of
the expression and the text it has without its aliases. `Plan.compile_exact` puts these together for
a plan.
-/

namespace Columnar

theorem ScalarFunction.ofName?_eq_some_iff {text : String} {function : ScalarFunction} :
    ofName? text = some function ↔ function.name.toList = text.toList.map Char.toUpper := by
  unfold ofName?
  constructor
  · intro h
    have hfound := List.find?_some h
    exact beq_iff_eq.1 hfound
  · intro h
    rw [← h]
    cases function <;> decide

theorem ScalarFunction.canonicalName_of_ofName? {text : String} {function : ScalarFunction}
    (h : ofName? text = some function) : canonicalName text = function.name := by
  rw [canonicalName, h]

namespace Expr

/-! ### What is accepted -/

theorem wellFormed_of_compile {e : Expr} {n : Node} (h : e.compile = .ok n) : e.WellFormed := by
  induction e generalizing n with
  | literal value => exact .literal value
  | column name => exact .column name
  | binary left op right hleft hright =>
    obtain ⟨l, r, hl, hr, -⟩ := compile_binary_iff.1 h
    exact .binary op (hleft hl) (hright hr)
  | unary op operand ih =>
    obtain ⟨o, ho, -⟩ := compile_unary_iff.1 h
    exact .unary op (ih ho)
  | call name arguments ih =>
    obtain ⟨function, ns, hname, harity, hns, -⟩ := compile_call_iff.1 h
    refine .call function (ScalarFunction.ofName?_eq_some_iff.1 hname) harity fun e he => ?_
    obtain ⟨n, -, hn⟩ := exists_of_mapM_eq_ok hns he
    exact ih e he hn
  | aggregate function argument ih =>
    obtain ⟨hflat, a, ha, -⟩ := compile_aggregate_iff.1 h
    refine .aggregate function (fun e he haggregate => ?_) (ih ha)
    rw [(containsAggregate_iff argument).2 ⟨e, he, haggregate⟩] at hflat
    cases hflat
  | aggregateRows function =>
    obtain ⟨rfl, -⟩ := compile_aggregateRows_iff.1 h
    exact .countRows
  | named inner name ih =>
    obtain ⟨hname, i, hi, -⟩ := compile_named_iff.1 h
    exact .named hname (ih hi)

theorem WellFormed.exists_compile {e : Expr} (h : e.WellFormed) : ∃ n, e.compile = .ok n := by
  induction h with
  | literal value => exact ⟨.constant value, rfl⟩
  | column name => exact ⟨.ofColumn name, rfl⟩
  | binary op _ _ hleft hright =>
    obtain ⟨l, hl⟩ := hleft
    obtain ⟨r, hr⟩ := hright
    exact ⟨_, compile_binary_iff.2 ⟨l, r, hl, hr, rfl⟩⟩
  | unary op _ ih =>
    obtain ⟨o, ho⟩ := ih
    exact ⟨_, compile_unary_iff.2 ⟨o, ho, rfl⟩⟩
  | call function hname harity _ ih =>
    obtain ⟨ns, hns⟩ := exists_mapM_eq_ok ih
    exact ⟨_, compile_call_iff.2
      ⟨function, ns, ScalarFunction.ofName?_eq_some_iff.2 hname, harity, hns, rfl⟩⟩
  | @aggregate argument function hflat _ ih =>
    obtain ⟨a, ha⟩ := ih
    refine ⟨_, compile_aggregate_iff.2 ⟨Bool.eq_false_iff.2 fun haggregate => ?_, a, ha, rfl⟩⟩
    obtain ⟨e, he, he'⟩ := (containsAggregate_iff argument).1 haggregate
    exact hflat e he he'
  | countRows => exact ⟨_, compile_aggregateRows_iff.2 ⟨rfl, rfl⟩⟩
  | named hname _ ih =>
    obtain ⟨i, hi⟩ := ih
    exact ⟨_, compile_named_iff.2 ⟨hname, i, hi, rfl⟩⟩

theorem exists_compile_iff {e : Expr} : (∃ n, e.compile = .ok n) ↔ e.WellFormed :=
  ⟨fun ⟨_, h⟩ => wellFormed_of_compile h, WellFormed.exists_compile⟩

/-! ### Columns and texts -/

@[simp] theorem columnNamesOf_eq_flatMap (es : List Expr) :
    columnNamesOf es = es.flatMap columnNames := by
  induction es with
  | nil => rfl
  | cons e rest ih => rw [columnNamesOf, ih, List.flatMap_cons]

@[simp] theorem textAll_eq_map (es : List Expr) : textAll es = es.map text := by
  induction es with
  | nil => rfl
  | cons e rest ih => rw [textAll, ih, List.map_cons]

theorem columnNames_of_compile {e : Expr} {n : Node} (h : e.compile = .ok n) :
    n.columnNames = e.columnNames := by
  induction e generalizing n with
  | literal value | column name =>
    cases h
    rfl
  | binary left op right hleft hright =>
    obtain ⟨l, r, hl, hr, rfl⟩ := compile_binary_iff.1 h
    rw [Node.ofBinary, Node.columnNames, hleft hl, hright hr, columnNames]
  | unary op operand ih =>
    obtain ⟨o, ho, rfl⟩ := compile_unary_iff.1 h
    rw [Node.ofUnary, Node.columnNames, ih ho, columnNames]
  | call name arguments ih =>
    obtain ⟨function, ns, -, -, hns, rfl⟩ := compile_call_iff.1 h
    have hsame : ns.map Node.columnNames = arguments.map columnNames :=
      map_eq_map_of_mapM_eq_ok hns fun e he n hn => ih e he hn
    rw [Node.ofCall, Node.columnNames, columnNames, Node.columnNamesOf_eq_flatMap,
      columnNamesOf_eq_flatMap, List.flatMap_def, List.flatMap_def, hsame]
  | aggregate function argument ih =>
    obtain ⟨-, a, ha, rfl⟩ := compile_aggregate_iff.1 h
    rw [Node.ofAggregate, Node.columnNames, ih ha, columnNames]
  | aggregateRows function =>
    obtain ⟨-, rfl⟩ := compile_aggregateRows_iff.1 h
    rfl
  | named inner name ih =>
    obtain ⟨-, i, hi, rfl⟩ := compile_named_iff.1 h
    rw [Node.columnNames, ih hi, columnNames]

theorem identity_of_compile {e : Expr} {n : Node} (h : e.compile = .ok n) :
    n.identity = e.text := by
  unfold Node.identity
  induction e generalizing n with
  | literal value | column name =>
    cases h
    rfl
  | binary left op right hleft hright =>
    obtain ⟨l, r, hl, hr, rfl⟩ := compile_binary_iff.1 h
    rw [Node.ofBinary, Node.text, hleft hl, hright hr, text]
  | unary op operand ih =>
    obtain ⟨o, ho, rfl⟩ := compile_unary_iff.1 h
    rw [Node.ofUnary, Node.text, ih ho, text]
  | call name arguments ih =>
    obtain ⟨function, ns, hname, -, hns, rfl⟩ := compile_call_iff.1 h
    have hsame : ns.map (Node.text true) = arguments.map text :=
      map_eq_map_of_mapM_eq_ok hns fun e he n hn => ih e he hn
    rw [Node.ofCall, Node.text, text, Node.textAll_eq_map, textAll_eq_map, hsame,
      ScalarFunction.canonicalName_of_ofName? hname]
  | aggregate function argument ih =>
    obtain ⟨-, a, ha, rfl⟩ := compile_aggregate_iff.1 h
    rw [Node.ofAggregate, Node.text, ih ha, text]
  | aggregateRows function =>
    obtain ⟨-, rfl⟩ := compile_aggregateRows_iff.1 h
    rfl
  | named inner name ih =>
    obtain ⟨-, i, hi, rfl⟩ := compile_named_iff.1 h
    rw [Node.text, text]
    rfl

/-! ### Without aliases -/

@[simp] theorem containsAggregate_withoutAliases (e : Expr) :
    e.withoutAliases.containsAggregate = e.containsAggregate := by
  induction e with
  | literal | column | aggregate | aggregateRows => rfl
  | binary left op right hleft hright =>
    rw [withoutAliases, containsAggregate, hleft, hright, containsAggregate]
  | unary op operand ih => rw [withoutAliases, containsAggregate, ih, containsAggregate]
  | call name arguments ih =>
    rw [withoutAliases, containsAggregate, containsAggregate, withoutAliasesAll_eq_map,
      anyContainsAggregate_eq_any, anyContainsAggregate_eq_any, List.any_map, Bool.eq_iff_iff,
      List.any_eq_true, List.any_eq_true]
    exact exists_congr fun e => and_congr_right fun he => by rw [Function.comp_apply, ih e he]
  | named inner name ih => rw [withoutAliases, ih, containsAggregate]

/-- Without aliases an expression compiles to the node without aliases. -/
theorem compile_withoutAliases {e : Expr} {n : Node} (h : e.compile = .ok n) :
    e.withoutAliases.compile = .ok n.withoutAliases := by
  induction e generalizing n with
  | literal value | column name =>
    cases h
    rfl
  | binary left op right hleft hright =>
    obtain ⟨l, r, hl, hr, rfl⟩ := compile_binary_iff.1 h
    exact compile_binary_iff.2 ⟨_, _, hleft hl, hright hr, rfl⟩
  | unary op operand ih =>
    obtain ⟨o, ho, rfl⟩ := compile_unary_iff.1 h
    exact compile_unary_iff.2 ⟨_, ih ho, rfl⟩
  | call name arguments ih =>
    obtain ⟨function, ns, hname, harity, hns, rfl⟩ := compile_call_iff.1 h
    have hplain : (arguments.map withoutAliases).mapM compile =
        .ok (ns.map Node.withoutAliases) := by
      rw [mapM_eq_ok_iff, List.forall₂_map_left_iff, List.forall₂_map_right_iff]
      exact forall₂_imp_of_mem (mapM_eq_ok_iff.1 hns) fun e he n hn => ih e he hn
    rw [withoutAliases, withoutAliasesAll_eq_map]
    refine compile_call_iff.2 ⟨function, _, hname, ?_, hplain, ?_⟩
    · rwa [List.length_map]
    · rw [Node.ofCall, Node.withoutAliases, Node.withoutAliasesAll_eq_map, Node.ofCall]
  | aggregate function argument ih =>
    obtain ⟨hflat, a, ha, rfl⟩ := compile_aggregate_iff.1 h
    refine compile_aggregate_iff.2 ⟨?_, _, ih ha, rfl⟩
    rwa [containsAggregate_withoutAliases]
  | aggregateRows function =>
    obtain ⟨hcount, rfl⟩ := compile_aggregateRows_iff.1 h
    exact compile_aggregateRows_iff.2 ⟨hcount, rfl⟩
  | named inner name ih =>
    obtain ⟨-, i, hi, rfl⟩ := compile_named_iff.1 h
    rw [withoutAliases, Node.withoutAliases]
    exact ih hi

theorem key_of_compile {e : Expr} {n : Node} (h : e.compile = .ok n) :
    n.key = e.withoutAliases.text :=
  (Node.identity_withoutAliases n).symm.trans (identity_of_compile (compile_withoutAliases h))

end Expr

namespace Plan

variable {plan : Plan} {nodes : List Node}

theorem exists_compile_iff :
    (∃ nodes, plan.compile = .ok nodes) ↔ ∀ e ∈ plan.expressions, e.WellFormed := by
  unfold Plan.compile
  rw [Expr.compileAll_eq_mapM]
  constructor
  · intro hsome e he
    obtain ⟨nodes, hnodes⟩ := hsome
    obtain ⟨n, -, hn⟩ := exists_of_mapM_eq_ok hnodes he
    exact Expr.wellFormed_of_compile hn
  · exact fun hall => exists_mapM_eq_ok fun e he => (hall e he).exists_compile

/-- Compilation accepts the well-formed and keeps their shape. A plan compiles exactly if all its
expressions are well-formed, and otherwise every reduction by it ends with the error of compilation.
If it compiles there is one node for each expression, in order: with an aggregate in it exactly if
the expression has one, with the column names that occur in the expression, with its text as
identity, and as key with the text it has without aliases. -/
theorem compile_exact (plan : Plan) :
    ((∃ nodes, plan.compile = .ok nodes) ↔ ∀ e ∈ plan.expressions, e.WellFormed) ∧
    (∀ failure, plan.compile = .error failure →
      ∀ b : Batch, b.reduce plan = .error (.compile failure.message)) ∧
    ∀ nodes, plan.compile = .ok nodes →
      List.Forall₂ (fun e n => n.containsAggregate = e.containsAggregate ∧
        (∀ name, name ∈ n.columnNames ↔ Expr.column name ∈ e.subexpressions) ∧
        n.identity = e.text ∧ n.key = e.withoutAliases.text) plan.expressions nodes := by
  refine ⟨exists_compile_iff, fun failure hfailure b => ?_, fun nodes hnodes => ?_⟩
  · simp only [Batch.reduce, hfailure]
  · refine (compile_eq_ok_iff.1 hnodes).imp fun e n hn => ?_
    refine ⟨Expr.containsAggregate_of_compile hn, fun name => ?_, Expr.identity_of_compile hn,
      Expr.key_of_compile hn⟩
    rw [Expr.columnNames_of_compile hn, Expr.mem_columnNames_iff]

/-- A sum of an alias under an alias, and a function that is not written in its own letters. -/
def aliasedPlan : Plan :=
  ⟨[.named (.binary (.aggregate .sum (.named (.column "x") "a")) (.arithmetic .add)
      (.literal (.int64 1))) "total",
    .call "Coalesce" [.named (.column "s") "t", .column "x"]]⟩

def aliasedNodes : List Node :=
  [.named (.ofBinary (.ofAggregate .sum (.named (.ofColumn "x") "a")) (.arithmetic .add)
      (.constant (.int64 1))) "total",
    .ofCall .coalesce [.named (.ofColumn "s") "t", .ofColumn "x"]]

/-- An aggregate with an alias between it and another one. -/
def nestedPlan : Plan := ⟨[.aggregate .max (.named (.aggregate .sum (.column "x")) "a")]⟩

theorem compile_exact_aliasedPlan :
    (aliasedPlan.compile = .ok aliasedNodes ∧ (∀ e ∈ aliasedPlan.expressions, e.WellFormed) ∧
      aliasedNodes.map Node.identity = ["total", "COALESCE(t, x)"] ∧
      aliasedNodes.map Node.key = ["(SUM(x) + 1)", "COALESCE(s, x)"] ∧
      List.Forall₂ (fun e n => n.containsAggregate = e.containsAggregate ∧
        (∀ name, name ∈ n.columnNames ↔ Expr.column name ∈ e.subexpressions) ∧
        n.identity = e.text ∧ n.key = e.withoutAliases.text)
        aliasedPlan.expressions aliasedNodes) ∧
    nestedPlan.compile = .error (.nestedAggregate .max) ∧
      (¬ ∀ e ∈ nestedPlan.expressions, e.WellFormed) ∧
      ∀ b : Batch, b.reduce nestedPlan =
        .error (.compile "aggregate MAX cannot contain another aggregate") := by
  have haliased : aliasedPlan.compile = .ok aliasedNodes := by rfl
  have hnested : nestedPlan.compile = .error (.nestedAggregate .max) := by rfl
  obtain ⟨hiff, -, hshape⟩ := compile_exact aliasedPlan
  obtain ⟨hiff', hfailure, -⟩ := compile_exact nestedPlan
  refine ⟨⟨haliased, hiff.1 ⟨_, haliased⟩, by decide, by decide, hshape _ haliased⟩, hnested,
    fun hall => ?_, hfailure _ hnested⟩
  obtain ⟨nodes, hnodes⟩ := hiff'.2 hall
  cases hnested.symm.trans hnodes

end Plan

end Columnar
