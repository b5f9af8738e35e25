import Columnar.Proofs.Batch.Rows
import Columnar.Proofs.Expr.Compilation
import Columnar.Proofs.Node.Errors
import Columnar.Proofs.Node.RowLevel
import Columnar.Proofs.Reduction.Plan

/-!
# Constant expressions

An expression with no column and no aggregate in it has nothing to take from the rows: each of them
evaluates it to its meaning over no rows at all (`Node.Unprobed.evaluate_eq_meaning`), so a batch
with rows, whatever is in it, gives that value or that error. There is one way in which the schema
still matters. A key is compared with the names of the columns before anything is computed, and a
literal has a key as well, so a column that bears the text of a constant stands in for it.
-/

namespace Columnar

namespace Node

/-! ### A node on its own -/

/-- Without columns, aggregates and probes, a node has on every row its meaning over any history. -/
theorem Unprobed.evaluate_eq_meaning {n : Node} (hn : n.Unprobed) (hcolumns : n.columnNames = [])
    (hlevel : n.containsAggregate = false) (row : Row) (history : List Row) :
    n.evaluate row = Fault.ofEval (n.meaning history) := by
  induction n with
  | constant value => rfl
  | probe => cases hn
  | column name current => cases hcolumns
  | aggregate | aggregateRows => cases hlevel
  | binary left op right current hleft hright =>
    obtain ⟨hl, hr⟩ := List.append_eq_nil_iff.1 hcolumns
    obtain ⟨hlevell, hlevelr⟩ := Bool.or_eq_false_iff.1 hlevel
    rw [evaluate, meaning, hleft hn.1 hl hlevell, hright hn.2 hr hlevelr, Fault.ofEval_bind]
    simp only [Fault.ofEval_bind]
  | unary op operand current ih =>
    rw [evaluate, meaning, ih hn hcolumns hlevel, Fault.ofEval_bind]
  | call function arguments current ih =>
    rw [Unprobed, unprobedAll_iff] at hn
    rw [columnNames, columnNamesOf_eq_flatMap, List.flatMap_eq_nil_iff] at hcolumns
    rw [containsAggregate, anyContainsAggregate_eq_any, List.any_eq_false] at hlevel
    have harguments : ∀ m ∈ arguments, m.evaluate row = Fault.ofEval (m.meaning history) :=
      fun m hm => ih m hm (hn m hm) (hcolumns m hm) (Bool.eq_false_iff.2 (hlevel m hm))
    rw [evaluate, meaning, evaluateAll_eq_mapM, meaningAll_eq_mapM, mapM_congr harguments,
      ← Fault.ofEval_mapM, Fault.ofEval_bind]
  | named inner name ih =>
    rw [evaluate, meaning]
    exact ih hn hcolumns hlevel

theorem answers_feed {outcome : Except Fault Value} {rows : List Row} {n : Node}
    (hlevel : n.containsAggregate = false) (hrows : rows ≠ [])
    (h : ∀ row ∈ rows, n.evaluate row = outcome) : Answers (feed rows n) outcome := by
  induction rows generalizing n with
  | nil => exact absurd rfl hrows
  | cons row rest ih =>
    obtain ⟨hrow, hrest⟩ := List.forall_mem_cons.1 h
    have hstep := answers_update row hlevel
    have hsame := (containsAggregate_update row n).trans hlevel
    have hevaluate := fun other => evaluate_update row other n
    rw [hrow] at hstep
    rw [feed]
    generalize n.update row = step at *
    cases hstep with
    | error => exact .error _ _
    | @ok after v hv =>
      -- Over no more rows the step is the answer; over more, each of them evaluates as before.
      by_cases hlast : rest = []
      · rw [hlast]
        exact .ok hv
      · exact ih hsame hlast fun other hother => (hevaluate other).trans (hrest other hother)

variable {b : Batch} {names : List String} {n : Node}

theorem Unprobed.contribution_of_constant (hb : b.WellFormed) (hrows : b.numRows ≠ 0)
    (hnames : b.HasColumns names) (hposition : b.position? n.key = none) (hn : n.Unprobed)
    (hcolumns : n.columnNames = []) (hlevel : n.containsAggregate = false) :
    n.contribution b names =
      match n.meaning [] with
      | .ok v => .ok (⟨n.identity, v.dataType⟩, v)
      | .error e => .error (.eval e) := by
  have hhistory : b.history ≠ [] := by
    refine List.ne_nil_of_length_pos ?_
    rw [Batch.history, List.length_map, Batch.length_rows]
    exact Nat.pos_of_ne_zero hrows
  have hanswers : Answers (feed b.history n) (Fault.ofEval (n.meaning [])) :=
    answers_feed hlevel hhistory fun row _ => hn.evaluate_eq_meaning hcolumns hlevel row []
  have hsub : n.columnNames ⊆ names := hcolumns ▸ List.nil_subset names
  rw [contribution_computed hb hnames hsub hposition]
  cases hmeaning : n.meaning [] with
  | ok v =>
    rw [hmeaning] at hanswers
    obtain ⟨hnone, hfinalize⟩ := hanswers.of_ok
    rw [hnone, hfinalize]
  | error e =>
    rw [hmeaning] at hanswers
    rw [hanswers.of_error]
    rfl

end Node

/-- What an expression makes on its own: the column of the value that it has over no rows, or the
error of compiling or evaluating it. -/
def Expr.standalone (e : Expr) : Except ReduceError Batch :=
  match e.compile with
  | .error failure => .error (.compile failure.message)
  | .ok n =>
    match n.meaning [] with
    | .ok v => .ok (Batch.ofOutputs [(⟨e.text, v.dataType⟩, v)])
    | .error failure => .error (.eval failure)

namespace Batch

variable {b : Batch} {e : Expr}

/-- A constant that no column of the batch is named like reduces to what it makes on its own. -/
theorem reduce_eq_standalone (hcolumns : e.columnNames = []) (hlevel : e.containsAggregate = false)
    (hb : b.WellFormed) (hrows : b.numRows ≠ 0)
    (hposition : e.WellFormed → b.position? e.withoutAliases.text = none) :
    b.reduce ⟨[e]⟩ = e.standalone := by
  unfold Expr.standalone
  cases hcompile : e.compile with
  | error failure => exact reduce_singleton_of_compile_error hcompile b
  | ok n =>
    dsimp only
    have hnone : b.position? n.key = none := by
      rw [Expr.key_of_compile hcompile]
      exact hposition (Expr.wellFormed_of_compile hcompile)
    have hnames : n.columnNames = [] := (Expr.columnNames_of_compile hcompile).trans hcolumns
    have hleaves : b.HasColumns (Node.leafColumns [n]) := by
      intro name hname
      obtain ⟨m, hm, hread⟩ := Node.mem_leafColumns.1 hname
      rw [List.mem_singleton.1 hm, hnames] at hread
      exact absurd hread List.not_mem_nil
    rw [reduce_singleton_of_compile hrows hcompile,
      (Expr.unprobed_of_compile hcompile).contribution_of_constant hb hrows hleaves.sortNames hnone
        hnames ((Expr.containsAggregate_of_compile hcompile).trans hlevel),
      Expr.identity_of_compile hcompile]
    cases n.meaning [] <;> rfl

/-- A column that bears the text of an expression stands in for it, whatever the expression is. -/
theorem reduce_of_namesake (hb : b.WellFormed) (hrows : b.numRows ≠ 0) (he : e.WellFormed)
    {position : Nat} (hposition : b.position? e.withoutAliases.text = some position) :
    ∃ column v, b.columns[position]? = some column ∧
      b.rows.getLast?.bind (·[position]?) = some v ∧
      b.reduce ⟨[e]⟩ = .ok (ofOutputs [(⟨e.text, column.dataType⟩, v)]) := by
  obtain ⟨n, hn⟩ := he.exists_compile
  rw [← Expr.key_of_compile hn] at hposition
  obtain ⟨output, houtput, hyields⟩ := Node.contribution_passThrough hb hrows
    (Text.sortNames (Node.leafColumns [n])) hposition
  rw [reduce_singleton_of_compile hrows hn, houtput, ← Expr.identity_of_compile hn]
  cases hyields with
  | computed hnone => cases hposition.symm.trans hnone
  | @passThrough found source v hfound hsource hv =>
    obtain rfl := Option.some.inj (hposition.symm.trans hfound)
    exact ⟨source, v, hsource, hv, rfl⟩

/-- A constant depends on the batch through the names of its columns at most. An expression without
columns and aggregates has one outcome on all batches with rows of which no column bears its text
without aliases: the column of its value over no rows, or the error that compiling or evaluating it
ends with. Where a column does bear that text, the first such column stands in for the expression,
with its type and its value in the last row. -/
theorem reduce_constant (hcolumns : e.columnNames = []) (hlevel : e.containsAggregate = false)
    {b b' : Batch} (hb : b.Reachable) (hb' : b'.Reachable) (hrows : b.numRows ≠ 0)
    (hrows' : b'.numRows ≠ 0) :
    ((e.WellFormed → b.position? e.withoutAliases.text = none ∧
        b'.position? e.withoutAliases.text = none) →
      b.reduce ⟨[e]⟩ = b'.reduce ⟨[e]⟩ ∧ b.reduce ⟨[e]⟩ = e.standalone) ∧
    (e.WellFormed → ∀ position, b.position? e.withoutAliases.text = some position →
      ∃ column v, b.columns[position]? = some column ∧
        b.rows.getLast?.bind (·[position]?) = some v ∧
        b.reduce ⟨[e]⟩ = .ok (ofOutputs [(⟨e.text, column.dataType⟩, v)])) := by
  refine ⟨fun hnone => ?_, fun he position hposition =>
    reduce_of_namesake hb.wellFormed hrows he hposition⟩
  have hsame := reduce_eq_standalone hcolumns hlevel hb.wellFormed hrows fun he => (hnone he).1
  have hsame' := reduce_eq_standalone hcolumns hlevel hb'.wellFormed hrows' fun he => (hnone he).2
  exact ⟨hsame.trans hsame'.symm, hsame⟩

def oneValue (column : Column) (v : Value) : Batch := ⟨[column], [#[v]], #[0], 1⟩

theorem reachable_oneValue (column : Column) (v : Value) : (oneValue column v).Reachable := by
  have hrows : ofRows [column] [[v]] = .ok (oneValue column v) := rfl
  exact .ofRows hrows

def answer : Expr :=
  .named (.binary (.literal (.int64 6)) (.arithmetic .mul) (.literal (.int64 7))) "answer"

def noQuotient : Expr :=
  .binary (.literal (.int64 5)) (.arithmetic .div) (.literal (.int64 0))

theorem reduce_constant_answer :
    (answer.columnNames = [] ∧ answer.containsAggregate = false ∧
      (oneValue ⟨"x", .int64⟩ (.int64 1)).numRows ≠ 0 ∧
      (oneValue ⟨"answer", .string⟩ .null).numRows ≠ 0 ∧
      (oneValue ⟨"x", .int64⟩ (.int64 1)).reduce ⟨[answer]⟩ =
        .ok (ofOutputs [(⟨"answer", .int64⟩, .int64 42)]) ∧
      (oneValue ⟨"answer", .string⟩ .null).reduce ⟨[answer]⟩ =
        .ok (ofOutputs [(⟨"answer", .int64⟩, .int64 42)])) ∧
    (noQuotient.columnNames = [] ∧ noQuotient.containsAggregate = false ∧
      (oneValue ⟨"x", .int64⟩ (.int64 1)).reduce ⟨[noQuotient]⟩ = .error (.eval .divisionByZero) ∧
      (oneValue ⟨"(5 / 0)", .string⟩ (.string "none")).reduce ⟨[noQuotient]⟩ =
        .ok (ofOutputs [(⟨"(5 / 0)", .string⟩, .string "none")])) := by
  have hx : (oneValue ⟨"x", .int64⟩ (.int64 1)).Reachable := reachable_oneValue _ _
  have hanswer : answer.standalone = .ok (ofOutputs [(⟨"answer", .int64⟩, .int64 42)]) := by rfl
  have hnoQuotient : noQuotient.standalone = .error (.eval .divisionByZero) := by rfl
  obtain ⟨hsame, hvalue⟩ :=
    (reduce_constant (e := answer) rfl rfl hx (reachable_oneValue ⟨"answer", .string⟩ .null)
      (by decide) (by decide)).1 fun _ => ⟨rfl, rfl⟩
  obtain ⟨-, hfails⟩ := (reduce_constant (e := noQuotient) rfl rfl hx hx (by decide)
    (by decide)).1 fun _ => ⟨rfl, rfl⟩
  have hwellFormed : noQuotient.WellFormed := .binary _ (.literal _) (.literal _)
  obtain ⟨column, v, hcolumn, hlast, hstands⟩ := (reduce_constant (e := noQuotient) rfl rfl
    (reachable_oneValue ⟨"(5 / 0)", .string⟩ (.string "none")) hx (by decide) (by decide)).2
      hwellFormed 0 rfl
  obtain rfl := Option.some.inj hcolumn
  obtain rfl : .string "none" = v := Option.some.inj hlast
  rw [hanswer] at hvalue
  refine ⟨⟨rfl, rfl, by decide, by decide, hvalue, hsame.symm.trans hvalue⟩, rfl, rfl,
    hfails.trans hnoQuotient, hstands⟩

/-- A literal over a column that bears its text is not its own value. -/
theorem reduce_literal_namesake :
    Expr.columnNames (.literal (.int64 5)) = [] ∧
      Expr.containsAggregate (.literal (.int64 5)) = false ∧
      (oneValue ⟨"5", .string⟩ (.string "five")).Reachable ∧
      (oneValue ⟨"5", .string⟩ (.string "five")).numRows ≠ 0 ∧
      (oneValue ⟨"x", .int64⟩ (.int64 1)).Reachable ∧
      (oneValue ⟨"x", .int64⟩ (.int64 1)).numRows ≠ 0 ∧
      (oneValue ⟨"5", .string⟩ (.string "five")).reduce ⟨[.literal (.int64 5)]⟩ =
        .ok (ofOutputs [(⟨"5", .string⟩, .string "five")]) ∧
      (oneValue ⟨"x", .int64⟩ (.int64 1)).reduce ⟨[.literal (.int64 5)]⟩ =
        .ok (ofOutputs [(⟨"5", .int64⟩, .int64 5)]) ∧
      (oneValue ⟨"5", .string⟩ (.string "five")).reduce ⟨[.literal (.int64 5)]⟩ ≠
        (oneValue ⟨"x", .int64⟩ (.int64 1)).reduce ⟨[.literal (.int64 5)]⟩ ∧
      (oneValue ⟨"5", .string⟩ (.string "five")).reduce ⟨[.literal (.int64 5)]⟩ ≠
        Expr.standalone (.literal (.int64 5)) := by
  have hfive : (oneValue ⟨"5", .string⟩ (.string "five")).reduce ⟨[.literal (.int64 5)]⟩ =
      .ok (ofOutputs [(⟨"5", .string⟩, .string "five")]) := by rfl
  have hone : (oneValue ⟨"x", .int64⟩ (.int64 1)).reduce ⟨[.literal (.int64 5)]⟩ =
      .ok (ofOutputs [(⟨"5", .int64⟩, .int64 5)]) := by rfl
  have hstandalone : Expr.standalone (.literal (.int64 5)) =
      .ok (ofOutputs [(⟨"5", .int64⟩, .int64 5)]) := by rfl
  have hdiffer : ofOutputs [(⟨"5", .string⟩, .string "five")] ≠
      ofOutputs [(⟨"5", .int64⟩, .int64 5)] := by decide
  refine ⟨rfl, rfl, reachable_oneValue _ _, by decide, reachable_oneValue _ _, by decide, hfive,
    hone, ?_, ?_⟩
  · rw [hfive, hone]
    exact fun h => hdiffer (Except.ok.inj h)
  · rw [hfive, hstandalone]
    exact fun h => hdiffer (Except.ok.inj h)

end Batch

end Columnar
