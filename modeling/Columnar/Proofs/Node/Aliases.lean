import Columnar.Proofs.Node.Tree

/-!
# Nodes without their aliases

An alias says what a column is called and nothing about what is computed. Removing all aliases of a
node therefore commutes with feeding it (`update_withoutAliases`), whatever it remembers, and leaves
its result, the columns it reads and its key as they are. Of the two texts only the identity
changes: without aliases it is the key.
-/

namespace Columnar

namespace Node

mutual

def withoutAliases : Node → Node
  | constant value => constant value
  | column name current => column name current
  | binary left op right current => binary left.withoutAliases op right.withoutAliases current
  | unary op operand current => unary op operand.withoutAliases current
  | call function arguments current => call function (withoutAliasesAll arguments) current
  | aggregate function argument acc => aggregate function argument.withoutAliases acc
  | aggregateRows function acc => aggregateRows function acc
  | named inner _ => inner.withoutAliases
  | probe label names faultOn => probe label names faultOn

def withoutAliasesAll : List Node → List Node
  | [] => []
  | n :: rest => n.withoutAliases :: withoutAliasesAll rest

end

@[simp] theorem withoutAliasesAll_eq_map (ns : List Node) :
    withoutAliasesAll ns = ns.map withoutAliases := by
  induction ns with
  | nil => rfl
  | cons n rest ih => rw [withoutAliasesAll, ih, List.map_cons]

/-! ### Columns and texts -/

@[simp] theorem containsAggregate_withoutAliases (n : Node) :
    n.withoutAliases.containsAggregate = n.containsAggregate := by
  induction n with
  | constant | column | aggregate | aggregateRows | probe => rfl
  | binary left op right current hleft hright =>
    rw [withoutAliases, containsAggregate, hleft, hright, containsAggregate]
  | unary op operand current ih => rw [withoutAliases, containsAggregate, ih, containsAggregate]
  | call function arguments current ih =>
    rw [withoutAliases, containsAggregate, containsAggregate, withoutAliasesAll_eq_map,
      anyContainsAggregate_eq_any, anyContainsAggregate_eq_any, List.any_map, Bool.eq_iff_iff,
      List.any_eq_true, List.any_eq_true]
    exact exists_congr fun n => and_congr_right fun hn => by rw [Function.comp_apply, ih n hn]
  | named inner name ih => rw [withoutAliases, ih, containsAggregate]

@[simp] theorem columnNames_withoutAliases (n : Node) :
    n.withoutAliases.columnNames = n.columnNames := by
  induction n with
  | constant | column | aggregateRows | probe => rfl
  | binary left op right current hleft hright =>
    rw [withoutAliases, columnNames, hleft, hright, columnNames]
  | unary op operand current ih => rw [withoutAliases, columnNames, ih, columnNames]
  | call function arguments current ih =>
    rw [withoutAliases, columnNames, columnNames, withoutAliasesAll_eq_map,
      columnNamesOf_eq_flatMap, columnNamesOf_eq_flatMap, List.flatMap_map]
    exact List.flatMap_congr ih
  | aggregate function argument acc ih => rw [withoutAliases, columnNames, ih, columnNames]
  | named inner name ih => rw [withoutAliases, ih, columnNames]

@[simp] theorem text_withoutAliases (aliases : Bool) (n : Node) :
    n.withoutAliases.text aliases = n.text false := by
  induction n with
  | constant | column | aggregateRows | probe => rfl
  | binary left op right current hleft hright =>
    rw [withoutAliases, text, hleft, hright, text]
  | unary op operand current ih => rw [withoutAliases, text, ih, text]
  | call function arguments current ih =>
    rw [withoutAliases, text, text, withoutAliasesAll_eq_map, textAll_eq_map, textAll_eq_map,
      List.map_map, show arguments.map (text aliases ∘ withoutAliases) = arguments.map (text false)
        from List.map_congr_left ih]
  | aggregate function argument acc ih => rw [withoutAliases, text, ih, text]
  | named inner name ih => exact ih

theorem identity_withoutAliases (n : Node) : n.withoutAliases.identity = n.key :=
  text_withoutAliases true n

theorem key_withoutAliases (n : Node) : n.withoutAliases.key = n.key :=
  text_withoutAliases false n

/-! ### Results and steps -/

@[simp] theorem finalize_withoutAliases (n : Node) : n.withoutAliases.finalize = n.finalize := by
  induction n with
  | constant | column | aggregate | aggregateRows | probe => rfl
  | binary left op right current hleft hright =>
    cases current with
    | none => rw [withoutAliases, finalize, finalize, hleft, hright]
    | some v => rfl
  | unary op operand current ih =>
    cases current with
    | none => rw [withoutAliases, finalize, finalize, ih]
    | some v => rfl
  | call function arguments current ih =>
    cases current with
    | none =>
      rw [withoutAliases, finalize, finalize, withoutAliasesAll_eq_map, finalizeAll_eq_mapM,
        finalizeAll_eq_mapM, List.mapM_map]
      exact congrArg (· >>= function.apply) (mapM_congr ih)
    | some v => rfl
  | named inner name ih => rw [withoutAliases, ih, finalize]

/-- The end of an operator's step is the same with the aliases below it removed. -/
theorem reevaluate_withoutAliases {rebuild plain : Option Value → Node}
    (h : ∀ c, (rebuild c).withoutAliases = plain c) (current : Option Value) :
    reevaluate plain current = (reevaluate rebuild current).map withoutAliases id := by
  have hplain : plain = fun c => (rebuild c).withoutAliases := funext fun c => (h c).symm
  unfold reevaluate remember
  rw [hplain]
  dsimp only
  rw [containsAggregate_withoutAliases, finalize_withoutAliases]
  split
  · rfl
  · split <;> rfl

theorem foldInto_withoutAliases {rebuild plain : Accumulator → Node}
    (h : ∀ acc, (rebuild acc).withoutAliases = plain acc) (acc : Accumulator)
    (value : Except EvalError Value) :
    foldInto plain acc value = (foldInto rebuild acc value).map withoutAliases id := by
  have hplain : plain = fun acc => (rebuild acc).withoutAliases := funext fun acc => (h acc).symm
  rw [hplain]
  cases value <;> rfl

theorem updateAll_withoutAliases {row : Row} {ns : List Node}
    (h : ∀ n ∈ ns, n.withoutAliases.update row = (n.update row).map withoutAliases id) :
    updateAll row (ns.map withoutAliases) = (updateAll row ns).map (·.map withoutAliases) id := by
  induction ns with
  | nil => rfl
  | cons n rest ih =>
    have hrest := ih fun m hm => h m (List.mem_cons_of_mem n hm)
    rw [List.map_cons, updateAll, updateAll, h n List.mem_cons_self, hrest]
    rcases n.update row with ⟨after, _ | e⟩ <;> rfl

theorem update_withoutAliases (row : Row) (n : Node) :
    n.withoutAliases.update row = (n.update row).map withoutAliases id := by
  induction n with
  | constant | probe => rfl
  | column name current =>
    rw [withoutAliases, update]
    split <;> rfl
  | binary left op right current hleft hright =>
    rw [withoutAliases, update_binary, update_binary, hleft, hright]
    rcases left.update row with ⟨l, _ | e⟩
    · rcases right.update row with ⟨r, _ | e⟩
      · exact reevaluate_withoutAliases (fun c => by rw [withoutAliases]) current
      · rfl
    · rfl
  | unary op operand current ih =>
    rw [withoutAliases, update_unary, update_unary, ih]
    rcases operand.update row with ⟨o, _ | e⟩
    · exact reevaluate_withoutAliases (fun c => by rw [withoutAliases]) current
    · rfl
  | call function arguments current ih =>
    rw [withoutAliases, update_call, update_call, withoutAliasesAll_eq_map,
      updateAll_withoutAliases ih]
    rcases updateAll row arguments with ⟨as, _ | e⟩
    · refine reevaluate_withoutAliases (fun c => ?_) current
      rw [withoutAliases, withoutAliasesAll_eq_map]
    · change (call function (as.map withoutAliases) current, some e) = _
      rw [← withoutAliasesAll_eq_map, ← withoutAliases]
      rfl
  | aggregate function argument acc ih =>
    rw [withoutAliases, update, update, ih]
    rcases argument.update row with ⟨a, _ | e⟩
    · change foldInto (aggregate function a.withoutAliases) acc a.withoutAliases.finalize = _
      rw [finalize_withoutAliases]
      exact foldInto_withoutAliases (fun acc => by rw [withoutAliases]) acc a.finalize
    · rfl
  | aggregateRows function acc =>
    rw [withoutAliases, update]
    exact foldInto_withoutAliases (fun acc => by rw [withoutAliases]) acc _
  | named inner name ih =>
    rw [withoutAliases, ih, update]
    rfl

end Node

end Columnar
