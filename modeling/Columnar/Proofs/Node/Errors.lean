import Columnar.Proofs.Compile

/-!
# What computing fails with

Operators, functions and accumulators fail for the values they are given: one is of a wrong type, a
result does not fit, or a divisor is zero (`EvalError.OfValues`). A value that is not there is
missed by column references alone, and only in a step, since a result is computed from what was
seen. Probes are the only nodes that give their task up, and none is compiled. So a step of a
compiled node over rows that have its columns fails for values and for nothing else.
-/

namespace Columnar

/-- The errors that values raise. -/
inductive EvalError.OfValues : EvalError → Prop where
  | typeMismatch (expected actual : String) : OfValues (.typeMismatch expected actual)
  | overflow (operation : String) : OfValues (.overflow operation)
  | divisionByZero : OfValues .divisionByZero

open EvalError (OfValues)

/-! ### Operators, functions and accumulators -/

theorem checkedOr_error {operation : String} {result : Option Int64} {e : EvalError}
    (h : checkedOr operation result = .error e) : OfValues e := by
  cases result with
  | some n => cases h
  | none =>
    cases h
    exact .overflow operation

theorem ArithmeticOp.apply_error {op : ArithmeticOp} {left right : Value} {e : EvalError}
    (h : op.apply left right = .error e) : OfValues e := by
  unfold ArithmeticOp.apply at h
  split at h
  · split at h
    · cases h
      exact .divisionByZero
    · exact checkedOr_error h
  · cases h
  · cases h
  · cases h
    exact .typeMismatch _ _

theorem ComparisonOp.apply_error {op : ComparisonOp} {left right : Value} {e : EvalError}
    (h : op.apply left right = .error e) : OfValues e := by
  unfold ComparisonOp.apply at h
  dsimp only at h
  split at h
  · cases h
  · cases h
    exact .typeMismatch _ _

theorem Value.truth?_error {v : Value} {e : EvalError} (h : v.truth? = .error e) : OfValues e := by
  unfold Value.truth? at h
  split at h
  · cases h
  · cases h
  · cases h
    exact .typeMismatch _ _

theorem LogicalOp.apply_error {op : LogicalOp} {left right : Value} {e : EvalError}
    (h : op.apply left right = .error e) : OfValues e := by
  rcases bind_eq_error_iff.1 h with h | ⟨l, -, h⟩
  · exact Value.truth?_error h
  · rcases bind_eq_error_iff.1 h with h | ⟨r, -, h⟩
    · exact Value.truth?_error h
    · cases h

theorem BinaryOp.apply_error {op : BinaryOp} {left right : Value} {e : EvalError}
    (h : op.apply left right = .error e) : OfValues e := by
  cases op with
  | logical op => exact LogicalOp.apply_error h
  | comparison op =>
    simp only [BinaryOp.apply] at h
    split at h
    · cases h
    · exact ComparisonOp.apply_error h
  | arithmetic op =>
    simp only [BinaryOp.apply] at h
    split at h
    · cases h
    · exact ArithmeticOp.apply_error h

theorem UnaryOp.apply_error {op : UnaryOp} {v : Value} {e : EvalError}
    (h : op.apply v = .error e) : OfValues e := by
  unfold UnaryOp.apply at h
  split at h
  case h_4 => exact checkedOr_error h
  all_goals
    cases h <;> exact .typeMismatch _ _

theorem ScalarFunction.applyOne_error {function : ScalarFunction} {v : Value} {e : EvalError}
    (h : function.applyOne v = .error e) : OfValues e := by
  unfold ScalarFunction.applyOne at h
  split at h
  case h_3 => exact checkedOr_error h
  all_goals
    cases h <;> exact .typeMismatch _ _

theorem ScalarFunction.apply_error {function : ScalarFunction} {vs : List Value} {e : EvalError}
    (h : function.apply vs = .error e) : OfValues e := by
  cases function with
  | coalesce => cases h
  | abs | upper | lower | length => exact applyOne_error h

theorem RunningSum.add_error {running : RunningSum} {v : Value} {e : EvalError}
    (h : running.add v = .error e) : OfValues e := by
  unfold RunningSum.add at h
  split at h
  case h_5 =>
    split at h
    · cases h
    · cases h
      exact .overflow _
  all_goals
    cases h <;> exact .typeMismatch _ _

theorem Extreme.take_error {side : Extreme} {held : Option Value} {v : Value} {e : EvalError}
    (h : side.take held v = .error e) : OfValues e := by
  rw [Extreme.take_eq] at h
  split at h
  · cases h
  · split at h
    · cases h
      exact .typeMismatch _ _
    · split at h
      · cases h
      · split at h
        · cases h
        · cases h
          exact .typeMismatch _ _

theorem Accumulator.take_error {acc : Accumulator} {v : Value} {e : EvalError}
    (h : acc.take v = .error e) : OfValues e := by
  cases acc with
  | count rows => cases h
  | sum running =>
    rw [take_sum] at h
    exact RunningSum.add_error (map_eq_error_iff.1 h)
  | avg total n =>
    rw [take_avg] at h
    split at h
    · cases h
    · split at h
      · cases h
      · cases h
        exact .typeMismatch _ _
  | extreme side held =>
    rw [take_extreme] at h
    exact Extreme.take_error (map_eq_error_iff.1 h)

namespace Node

/-! ### Results -/

/-- A result misses no value, whatever the node was fed. -/
theorem finalize_error {n : Node} {e : EvalError} (h : n.finalize = .error e) : OfValues e := by
  induction n generalizing e with
  | constant | column | aggregate | aggregateRows | probe => cases h
  | binary left op right current hleft hright =>
    cases current with
    | some v => cases h
    | none =>
      rcases bind_eq_error_iff.1 h with h | ⟨l, -, h⟩
      · exact hleft h
      · rcases bind_eq_error_iff.1 h with h | ⟨r, -, h⟩
        · exact hright h
        · exact BinaryOp.apply_error h
  | unary op operand current ih =>
    cases current with
    | some v => cases h
    | none =>
      rcases bind_eq_error_iff.1 h with h | ⟨v, -, h⟩
      · exact ih h
      · exact UnaryOp.apply_error h
  | call function arguments current ih =>
    cases current with
    | some v => cases h
    | none =>
      rw [finalize, finalizeAll_eq_mapM] at h
      rcases bind_eq_error_iff.1 h with h | ⟨vs, -, h⟩
      · obtain ⟨n, hfirst, hn⟩ := mapM_eq_error_iff.1 h
        exact ih n hfirst.mem hn
      · exact ScalarFunction.apply_error h
  | named inner name ih => exact ih h

/-! ### Steps -/

mutual

/-- No probe lies in the node. -/
def Unprobed : Node → Prop
  | constant _ | column _ _ | aggregateRows _ _ => True
  | binary left _ right _ => left.Unprobed ∧ right.Unprobed
  | unary _ operand _ => operand.Unprobed
  | call _ arguments _ => UnprobedAll arguments
  | aggregate _ argument _ => argument.Unprobed
  | named inner _ => inner.Unprobed
  | probe _ _ _ => False

def UnprobedAll : List Node → Prop
  | [] => True
  | n :: rest => n.Unprobed ∧ UnprobedAll rest

end

@[simp] theorem unprobedAll_iff {ns : List Node} : UnprobedAll ns ↔ ∀ n ∈ ns, n.Unprobed := by
  induction ns with
  | nil => simp [UnprobedAll]
  | cons n rest ih => rw [UnprobedAll, ih, List.forall_mem_cons]

theorem unprobed_fresh_iff (n : Node) : n.fresh.Unprobed ↔ n.Unprobed := by
  induction n with
  | constant | column | aggregateRows | probe => exact Iff.rfl
  | binary left op right current hleft hright =>
    rw [fresh, ofBinary, Unprobed, hleft, hright, Unprobed]
  | unary op operand current ih => rw [fresh, ofUnary, Unprobed, ih, Unprobed]
  | call function arguments current ih =>
    rw [fresh, ofCall, Unprobed, Unprobed, unprobedAll_iff, unprobedAll_iff, freshAll_eq_map,
      List.forall_mem_map]
    exact forall₂_congr ih
  | aggregate function argument acc ih => rw [fresh, ofAggregate, Unprobed, ih, Unprobed]
  | named inner name ih => rw [fresh, Unprobed, ih, Unprobed]

theorem Unprobed.update {n : Node} (hn : n.Unprobed) (row : Row) : (n.update row).1.Unprobed := by
  rw [← unprobed_fresh_iff, fresh_update, unprobed_fresh_iff]
  exact hn

theorem reevaluate_fault {rebuild : Option Value → Node} {current : Option Value}
    {failure : Fault} (h : (reevaluate rebuild current).2 = some failure) :
    ∃ e, failure = .eval e ∧ OfValues e := by
  unfold reevaluate at h
  split at h
  · cases h
  · cases hfinalize : (rebuild none).finalize with
    | ok v =>
      rw [hfinalize] at h
      cases h
    | error e =>
      rw [hfinalize] at h
      cases h
      exact ⟨e, rfl, finalize_error hfinalize⟩

theorem foldInto_fault {rebuild : Accumulator → Node} {acc : Accumulator}
    {value : Except EvalError Value} (hvalue : ∀ e, value = .error e → OfValues e)
    {failure : Fault} (h : (foldInto rebuild acc value).2 = some failure) :
    ∃ e, failure = .eval e ∧ OfValues e := by
  rw [foldInto_eq] at h
  split at h
  · cases h
  · next e he =>
    cases h
    refine ⟨e, rfl, ?_⟩
    rcases bind_eq_error_iff.1 he with he | ⟨v, -, he⟩
    · exact hvalue e he
    · exact Accumulator.take_error he

/-- A step of a node without probes fails for values, or for a column that the row lacks. -/
theorem Unprobed.update_fault {row : Row} {n : Node} {failure : Fault} (hn : n.Unprobed)
    (h : (n.update row).2 = some failure) :
    ∃ e, failure = .eval e ∧
      (OfValues e ∨ ∃ name ∈ n.columnNames, row.get? name = none ∧ e = .missingField name) := by
  induction n with
  | constant value => cases h
  | probe => cases hn
  | column name current =>
    rw [Node.update] at h
    cases hget : row.get? name with
    | some v =>
      rw [hget] at h
      cases h
    | none =>
      rw [hget] at h
      cases h
      exact ⟨_, rfl, .inr ⟨name, List.mem_singleton.2 rfl, hget, rfl⟩⟩
  | binary left op right current hleft hright =>
    rw [update_binary] at h
    rcases hl : left.update row with ⟨l, _ | e⟩ <;> rw [hl] at h hleft
    · rcases hr : right.update row with ⟨r, _ | e⟩ <;> rw [hr] at h hright
      · obtain ⟨e, he, hvalues⟩ := reevaluate_fault h
        exact ⟨e, he, .inl hvalues⟩
      · obtain ⟨d, hd, hvalues | ⟨name, hname, hmissing⟩⟩ := hright hn.2 h
        · exact ⟨d, hd, .inl hvalues⟩
        · exact ⟨d, hd, .inr ⟨name, List.mem_append_right _ hname, hmissing⟩⟩
    · obtain ⟨d, hd, hvalues | ⟨name, hname, hmissing⟩⟩ := hleft hn.1 h
      · exact ⟨d, hd, .inl hvalues⟩
      · exact ⟨d, hd, .inr ⟨name, List.mem_append_left _ hname, hmissing⟩⟩
  | unary op operand current ih =>
    rw [update_unary] at h
    rcases ho : operand.update row with ⟨o, _ | e⟩ <;> rw [ho] at h ih
    · obtain ⟨e, he, hvalues⟩ := reevaluate_fault h
      exact ⟨e, he, .inl hvalues⟩
    · exact ih hn h
  | call function arguments current ih =>
    rw [Unprobed, unprobedAll_iff] at hn
    have hsnd := snd_updateAll row arguments
    rw [update_call] at h
    rcases ha : updateAll row arguments with ⟨as, _ | e⟩ <;> rw [ha] at h hsnd
    · obtain ⟨e, he, hvalues⟩ := reevaluate_fault h
      exact ⟨e, he, .inl hvalues⟩
    · obtain ⟨n, hfirst, hfails⟩ := findSome?_eq_some_iff_first.1 (hsnd.symm.trans h)
      obtain ⟨d, hd, hvalues | ⟨name, hname, hmissing⟩⟩ :=
        ih n hfirst.mem (hn n hfirst.mem) hfails
      · exact ⟨d, hd, .inl hvalues⟩
      · refine ⟨d, hd, .inr ⟨name, ?_, hmissing⟩⟩
        rw [columnNames, columnNamesOf_eq_flatMap]
        exact List.mem_flatMap.2 ⟨n, hfirst.mem, hname⟩
  | aggregate function argument acc ih =>
    rw [Node.update] at h
    rcases ha : argument.update row with ⟨a, _ | e⟩ <;> rw [ha] at h ih
    · obtain ⟨e, he, hvalues⟩ := foldInto_fault (fun e => finalize_error) h
      exact ⟨e, he, .inl hvalues⟩
    · exact ih hn h
  | aggregateRows function acc =>
    rw [Node.update] at h
    obtain ⟨e, he, hvalues⟩ := foldInto_fault (fun e he => by cases he) h
    exact ⟨e, he, .inl hvalues⟩
  | named inner name ih => exact ih hn h

/-- Over rows that have its columns, a node without probes fails for values. -/
theorem Unprobed.feed_fault {rows : List Row} {n : Node} {failure : Fault} (hn : n.Unprobed)
    (hrows : ∀ row ∈ rows, ∀ name ∈ n.columnNames, row.get? name ≠ none)
    (h : (Node.feed rows n).2 = some failure) : ∃ e, failure = .eval e ∧ OfValues e := by
  induction rows generalizing n with
  | nil => cases h
  | cons row rows ih =>
    obtain ⟨hrow, hrest⟩ := List.forall_mem_cons.1 hrows
    have hafter := hn.update row
    have hnames := columnNames_update row n
    rw [Node.feed] at h
    rcases hu : n.update row with ⟨after, _ | e⟩ <;> rw [hu] at h hafter hnames
    · exact ih hafter (hnames ▸ hrest) h
    · obtain ⟨d, rfl, hvalues | ⟨name, hname, hmissing, -⟩⟩ :=
        hn.update_fault ((congrArg Prod.snd hu).trans h)
      · exact ⟨d, rfl, hvalues⟩
      · exact absurd hmissing (hrow name hname)

end Node

/-- Probes are not compiled. -/
theorem Expr.unprobed_of_compile {e : Expr} {n : Node} (h : e.compile = .ok n) : n.Unprobed := by
  induction e generalizing n with
  | literal value | column name =>
    cases h
    trivial
  | binary left op right hleft hright =>
    obtain ⟨l, r, hl, hr, rfl⟩ := compile_binary_iff.1 h
    exact ⟨hleft hl, hright hr⟩
  | unary op operand ih =>
    obtain ⟨o, ho, rfl⟩ := compile_unary_iff.1 h
    rw [Node.ofUnary, Node.Unprobed]
    exact ih ho
  | call name arguments ih =>
    obtain ⟨function, ns, -, -, hns, rfl⟩ := compile_call_iff.1 h
    rw [Node.ofCall, Node.Unprobed, Node.unprobedAll_iff]
    exact forall_of_mapM_eq_ok hns fun e he n hn => ih e he hn
  | aggregate function argument ih =>
    obtain ⟨-, a, ha, rfl⟩ := compile_aggregate_iff.1 h
    rw [Node.ofAggregate, Node.Unprobed]
    exact ih ha
  | aggregateRows function =>
    obtain ⟨-, rfl⟩ := compile_aggregateRows_iff.1 h
    trivial
  | named inner name ih =>
    obtain ⟨-, i, hi, rfl⟩ := compile_named_iff.1 h
    rw [Node.Unprobed]
    exact ih hi

theorem Plan.unprobed_of_mem_compile {plan : Plan} {nodes : List Node}
    (h : plan.compile = .ok nodes) {n : Node} (hn : n ∈ nodes) : n.Unprobed := by
  obtain ⟨e, -, hcompile⟩ := exists_of_mem_compile h hn
  exact Expr.unprobed_of_compile hcompile

end Columnar
