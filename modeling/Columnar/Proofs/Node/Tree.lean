import Columnar.Compile
import Columnar.Node.Meaning
import Columnar.Proofs.Outcomes
import Mathlib.Data.List.Basic

/-!
# Nodes as trees

A node is a tree with lists of children, so the functions on nodes come in pairs, one for a node and
one for a list. Here the second of each pair is read as the first one along the list, and a property
of all nodes is proved by `Node.tree_induction`, with the property of every argument of a call at
hand. A step changes what the nodes of a tree remember and nothing else: `fresh_update` says so
once, and whatever does not look at the remembered values is the same before and after.
-/

namespace Columnar

namespace Node

@[induction_eliminator]
theorem tree_induction {motive : Node → Prop}
    (constant : ∀ value, motive (.constant value))
    (column : ∀ name current, motive (.column name current))
    (binary : ∀ left op right current, motive left → motive right →
      motive (.binary left op right current))
    (unary : ∀ op operand current, motive operand → motive (.unary op operand current))
    (call : ∀ function arguments current, (∀ n ∈ arguments, motive n) →
      motive (.call function arguments current))
    (aggregate : ∀ function argument acc, motive argument →
      motive (.aggregate function argument acc))
    (aggregateRows : ∀ function acc, motive (.aggregateRows function acc))
    (named : ∀ inner name, motive inner → motive (.named inner name))
    (probe : ∀ label names faultOn, motive (.probe label names faultOn)) (n : Node) :
    motive n := by
  refine @Node.rec motive (fun ns => ∀ n ∈ ns, motive n)
    constant column binary unary call aggregate aggregateRows named probe ?_ ?_ n
  · intro n hn
    exact absurd hn List.not_mem_nil
  · intro n rest hn hrest m hm
    rcases List.mem_cons.1 hm with rfl | hm
    · exact hn
    · exact hrest m hm

/-! ### Lists of children -/

@[simp] theorem anyContainsAggregate_eq_any (ns : List Node) :
    anyContainsAggregate ns = ns.any containsAggregate := by
  induction ns with
  | nil => rfl
  | cons n rest ih => rw [anyContainsAggregate, ih, List.any_cons]

@[simp] theorem columnNamesOf_eq_flatMap (ns : List Node) :
    columnNamesOf ns = ns.flatMap columnNames := by
  induction ns with
  | nil => rfl
  | cons n rest ih => rw [columnNamesOf, ih, List.flatMap_cons]

@[simp] theorem textAll_eq_map (aliases : Bool) (ns : List Node) :
    textAll aliases ns = ns.map (text aliases) := by
  induction ns with
  | nil => rfl
  | cons n rest ih => rw [textAll, ih, List.map_cons]

@[simp] theorem freshAll_eq_map (ns : List Node) : freshAll ns = ns.map fresh := by
  induction ns with
  | nil => rfl
  | cons n rest ih => rw [freshAll, ih, List.map_cons]

@[simp] theorem finalizeAll_eq_mapM (ns : List Node) : finalizeAll ns = ns.mapM finalize := by
  induction ns with
  | nil => rfl
  | cons n rest ih => rw [finalizeAll, ih, List.mapM_cons]

@[simp] theorem meaningAll_eq_mapM (ns : List Node) (history : List Row) :
    meaningAll ns history = ns.mapM fun n => n.meaning history := by
  induction ns with
  | nil => rfl
  | cons n rest ih => rw [meaningAll, ih, List.mapM_cons]

theorem snd_updateAll (row : Row) (ns : List Node) :
    (updateAll row ns).2 = ns.findSome? fun n => (n.update row).2 := by
  induction ns with
  | nil => rfl
  | cons n rest ih =>
    rw [updateAll, List.findSome?_cons]
    rcases n.update row with ⟨n, _ | e⟩
    · exact ih
    · rfl

theorem fst_updateAll {row : Row} {ns : List Node} (h : (updateAll row ns).2 = none) :
    (updateAll row ns).1 = ns.map fun n => (n.update row).1 := by
  induction ns with
  | nil => rfl
  | cons n rest ih =>
    rw [snd_updateAll, List.findSome?_cons] at h
    rw [updateAll, List.map_cons]
    rcases hn : n.update row with ⟨after, _ | e⟩
    · rw [hn] at h
      exact congrArg (after :: ·) (ih ((snd_updateAll row rest).trans h))
    · rw [hn] at h
      cases h

/-! ### The tree without its state -/

@[simp] theorem containsAggregate_fresh (n : Node) :
    n.fresh.containsAggregate = n.containsAggregate := by
  induction n with
  | constant | column | aggregate | aggregateRows | probe => rfl
  | binary left op right current hleft hright =>
    rw [fresh, ofBinary, containsAggregate, hleft, hright, containsAggregate]
  | unary op operand current ih => rw [fresh, ofUnary, containsAggregate, ih, containsAggregate]
  | call function arguments current ih =>
    rw [fresh, ofCall, containsAggregate, containsAggregate, freshAll_eq_map,
      anyContainsAggregate_eq_any, anyContainsAggregate_eq_any, List.any_map, Bool.eq_iff_iff,
      List.any_eq_true, List.any_eq_true]
    exact exists_congr fun n => and_congr_right fun hn => by rw [Function.comp_apply, ih n hn]
  | named inner name ih => rw [fresh, containsAggregate, ih, containsAggregate]

@[simp] theorem columnNames_fresh (n : Node) : n.fresh.columnNames = n.columnNames := by
  induction n with
  | constant | column | aggregateRows | probe => rfl
  | binary left op right current hleft hright =>
    rw [fresh, ofBinary, columnNames, hleft, hright, columnNames]
  | unary op operand current ih => rw [fresh, ofUnary, columnNames, ih, columnNames]
  | call function arguments current ih =>
    rw [fresh, ofCall, columnNames, columnNames, freshAll_eq_map, columnNamesOf_eq_flatMap,
      columnNamesOf_eq_flatMap, List.flatMap_map]
    exact List.flatMap_congr ih
  | aggregate function argument acc ih => rw [fresh, ofAggregate, columnNames, ih, columnNames]
  | named inner name ih => rw [fresh, columnNames, ih, columnNames]

@[simp] theorem text_fresh (aliases : Bool) (n : Node) :
    n.fresh.text aliases = n.text aliases := by
  induction n with
  | constant | column | aggregateRows | probe => rfl
  | binary left op right current hleft hright =>
    rw [fresh, ofBinary, text, hleft, hright, text]
  | unary op operand current ih => rw [fresh, ofUnary, text, ih, text]
  | call function arguments current ih =>
    rw [fresh, ofCall, text, text, freshAll_eq_map, textAll_eq_map, textAll_eq_map, List.map_map,
      show arguments.map (text aliases ∘ fresh) = arguments.map (text aliases) from
        List.map_congr_left ih]
  | aggregate function argument acc ih => rw [fresh, ofAggregate, text, ih, text]
  | named inner name ih => rw [fresh, text, ih, text]

@[simp] theorem meaning_fresh (n : Node) (history : List Row) :
    n.fresh.meaning history = n.meaning history := by
  induction n generalizing history with
  | constant | column | aggregateRows | probe => rfl
  | binary left op right current hleft hright =>
    rw [fresh, ofBinary, meaning, hleft, hright, meaning]
  | unary op operand current ih => rw [fresh, ofUnary, meaning, ih, meaning]
  | call function arguments current ih =>
    rw [fresh, ofCall, meaning, meaning, freshAll_eq_map, meaningAll_eq_mapM, meaningAll_eq_mapM,
      List.mapM_map]
    exact congrArg (· >>= function.apply) (mapM_congr fun n hn => ih n hn history)
  | aggregate function argument acc ih =>
    rw [fresh, ofAggregate, meaning, meaning, funext ih]
  | named inner name ih => rw [fresh, meaning, ih, meaning]

/-! ### One step of an operator

Once its children are fed, an operator or a call ends its step in one way, whatever its shape:
above an aggregate it does nothing more, and otherwise it evaluates itself on its children. -/

/-- The end of an operator's step, its children being fed. -/
def reevaluate (rebuild : Option Value → Node) (current : Option Value) : Node × Option Fault :=
  if (rebuild none).containsAggregate then (rebuild current, none)
  else remember rebuild current (rebuild none).finalize

theorem update_binary (row : Row) (left : Node) (op : BinaryOp) (right : Node)
    (current : Option Value) :
    (binary left op right current).update row =
      match left.update row with
      | (l, some e) => (binary l op right current, some e)
      | (l, none) =>
        match right.update row with
        | (r, some e) => (binary l op r current, some e)
        | (r, none) => reevaluate (binary l op r) current := by
  rw [update]
  rfl

theorem update_unary (row : Row) (op : UnaryOp) (operand : Node) (current : Option Value) :
    (unary op operand current).update row =
      match operand.update row with
      | (o, some e) => (unary op o current, some e)
      | (o, none) => reevaluate (unary op o) current := by
  rw [update]
  rfl

theorem update_call (row : Row) (function : ScalarFunction) (arguments : List Node)
    (current : Option Value) :
    (call function arguments current).update row =
      match updateAll row arguments with
      | (as, some e) => (call function as current, some e)
      | (as, none) => reevaluate (call function as) current := by
  rw [update]
  rfl

/-- Whatever comes of it, evaluating an operator again only replaces what it remembers. -/
theorem exists_fst_reevaluate (rebuild : Option Value → Node) (current : Option Value) :
    ∃ c, (reevaluate rebuild current).1 = rebuild c := by
  unfold reevaluate
  split
  · exact ⟨current, rfl⟩
  · unfold remember
    split
    · exact ⟨_, rfl⟩
    · exact ⟨current, rfl⟩

theorem exists_fst_foldInto (rebuild : Accumulator → Node) (acc : Accumulator)
    (value : Except EvalError Value) : ∃ after, (foldInto rebuild acc value).1 = rebuild after := by
  cases value with
  | error e => exact ⟨acc, rfl⟩
  | ok v => exact ⟨(acc.fold v).1, rfl⟩

/-! ### What a step leaves as it is -/

theorem map_fresh_updateAll {row : Row} {ns : List Node}
    (h : ∀ n ∈ ns, (n.update row).1.fresh = n.fresh) :
    (updateAll row ns).1.map fresh = ns.map fresh := by
  induction ns with
  | nil => rfl
  | cons n rest ih =>
    have hn := h n List.mem_cons_self
    have hrest := ih fun m hm => h m (List.mem_cons_of_mem n hm)
    rw [updateAll, List.map_cons]
    rcases hu : n.update row with ⟨after, _ | e⟩
    · rw [hu] at hn
      rw [← hn, ← hrest]
      rfl
    · rw [hu] at hn
      rw [← hn]
      rfl

/-- A step changes what is remembered, never which expression it is. -/
@[simp] theorem fresh_update (row : Row) (n : Node) : (n.update row).1.fresh = n.fresh := by
  induction n with
  | constant | probe => rfl
  | column name current =>
    rw [update]
    split <;> rfl
  | binary left op right current hleft hright =>
    rw [update_binary]
    rcases hl : left.update row with ⟨l, _ | e⟩ <;> rw [hl] at hleft
    · rcases hr : right.update row with ⟨r, _ | e⟩ <;> rw [hr] at hright
      · obtain ⟨c, hc⟩ := exists_fst_reevaluate (binary l op r) current
        dsimp only
        rw [hc, fresh, hleft, hright, fresh]
      · dsimp only
        rw [fresh, hleft, hright, fresh]
    · dsimp only
      rw [fresh, hleft, fresh]
  | unary op operand current ih =>
    rw [update_unary]
    rcases ho : operand.update row with ⟨o, _ | e⟩ <;> rw [ho] at ih
    · obtain ⟨c, hc⟩ := exists_fst_reevaluate (unary op o) current
      dsimp only
      rw [hc, fresh, ih, fresh]
    · dsimp only
      rw [fresh, ih, fresh]
  | call function arguments current ih =>
    have hmap := map_fresh_updateAll ih
    rw [update_call]
    rcases ha : updateAll row arguments with ⟨as, _ | e⟩ <;> rw [ha] at hmap
    · obtain ⟨c, hc⟩ := exists_fst_reevaluate (call function as) current
      dsimp only
      rw [hc, fresh, fresh, freshAll_eq_map, freshAll_eq_map, hmap]
    · dsimp only
      rw [fresh, fresh, freshAll_eq_map, freshAll_eq_map, hmap]
  | aggregate function argument acc ih =>
    rw [update]
    rcases ha : argument.update row with ⟨a, _ | e⟩ <;> rw [ha] at ih
    · obtain ⟨after, hafter⟩ := exists_fst_foldInto (aggregate function a) acc a.finalize
      dsimp only
      rw [hafter, fresh, ih, fresh]
    · dsimp only
      rw [fresh, ih, fresh]
  | aggregateRows function acc =>
    obtain ⟨after, hafter⟩ := exists_fst_foldInto (aggregateRows function) acc (.ok (.bool true))
    rw [update, hafter, fresh, fresh]
  | named inner name ih =>
    rw [update]
    dsimp only
    rw [fresh, ih, fresh]

@[simp] theorem fresh_feed (rows : List Row) (n : Node) : (feed rows n).1.fresh = n.fresh := by
  induction rows generalizing n with
  | nil => rfl
  | cons row rows ih =>
    have hn := fresh_update row n
    rw [feed]
    rcases hu : n.update row with ⟨after, _ | e⟩
    · rw [hu] at hn
      exact (ih after).trans hn
    · rw [hu] at hn
      exact hn

theorem containsAggregate_update (row : Row) (n : Node) :
    (n.update row).1.containsAggregate = n.containsAggregate := by
  rw [← containsAggregate_fresh, fresh_update, containsAggregate_fresh]

theorem anyContainsAggregate_updateAll (row : Row) (ns : List Node) :
    anyContainsAggregate (updateAll row ns).1 = anyContainsAggregate ns := by
  have hfresh : ∀ n ∈ ns, (n.update row).1.fresh = n.fresh := fun n _ => fresh_update row n
  have hany := congrArg (List.any · containsAggregate) (map_fresh_updateAll hfresh)
  simp only [List.any_map] at hany
  rw [anyContainsAggregate_eq_any, anyContainsAggregate_eq_any]
  rwa [show containsAggregate ∘ fresh = containsAggregate from funext containsAggregate_fresh]
    at hany

theorem columnNames_update (row : Row) (n : Node) :
    (n.update row).1.columnNames = n.columnNames := by
  rw [← columnNames_fresh, fresh_update, columnNames_fresh]

theorem meaning_update (row : Row) (n : Node) : (n.update row).1.meaning = n.meaning := by
  funext history
  rw [← meaning_fresh, fresh_update, meaning_fresh]

theorem text_feed (aliases : Bool) (rows : List Row) (n : Node) :
    (feed rows n).1.text aliases = n.text aliases := by
  rw [← text_fresh, fresh_feed, text_fresh]

theorem meaning_feed (rows : List Row) (n : Node) : (feed rows n).1.meaning = n.meaning := by
  funext history
  rw [← meaning_fresh, fresh_feed, meaning_fresh]

end Node

end Columnar
