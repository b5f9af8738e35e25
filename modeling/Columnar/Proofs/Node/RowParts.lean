import Columnar.Proofs.Compile
import Columnar.Proofs.Node.History

/-!
# What a row reaches

A step evaluates an operator only when no aggregate lies below it. So the parts of a tree that a row
reaches are its aggregates and, beside them, the largest trees without one, and a step of the tree
is a step of these parts, from left to right (`updateAll_rowParts`). In a compiled tree the
arguments of its aggregates are among the trees without one, so what an operator above an aggregate
is applied to is the aggregate's final value and no other.
-/

namespace Columnar

namespace Node

mutual

def rowParts : Node → List Node
  | constant value => [constant value]
  | column name current => [column name current]
  | binary left op right current =>
    if left.containsAggregate || right.containsAggregate then left.rowParts ++ right.rowParts
    else [binary left op right current]
  | unary op operand current =>
    if operand.containsAggregate then operand.rowParts else [unary op operand current]
  | call function arguments current =>
    if anyContainsAggregate arguments then rowPartsOf arguments
    else [call function arguments current]
  | aggregate function argument acc => [aggregate function argument acc]
  | aggregateRows function acc => [aggregateRows function acc]
  | named inner _ => inner.rowParts
  | probe label names faultOn => [probe label names faultOn]

def rowPartsOf : List Node → List Node
  | [] => []
  | n :: rest => n.rowParts ++ rowPartsOf rest

end

@[simp] theorem rowPartsOf_eq_flatMap (ns : List Node) : rowPartsOf ns = ns.flatMap rowParts := by
  induction ns with
  | nil => rfl
  | cons n rest ih => rw [rowPartsOf, ih, List.flatMap_cons]

/-! ### A step of the parts -/

theorem updateAll_append (row : Row) (before after : List Node) :
    updateAll row (before ++ after) =
      match updateAll row before with
      | (b, some e) => (b ++ after, some e)
      | (b, none) =>
        match updateAll row after with
        | (a, outcome) => (b ++ a, outcome) := by
  induction before with
  | nil => rfl
  | cons n rest ih =>
    rw [List.cons_append, updateAll, updateAll, ih]
    rcases n.update row with ⟨m, _ | e⟩
    · rcases updateAll row rest with ⟨b, _ | e⟩ <;> rfl
    · rfl

theorem updateAll_singleton (row : Row) (n : Node) :
    updateAll row [n] = ([(n.update row).1], (n.update row).2) := by
  rw [updateAll]
  rcases n.update row with ⟨m, _ | e⟩ <;> rfl

theorem reevaluate_of_containsAggregate {rebuild : Option Value → Node}
    (h : (rebuild none).containsAggregate = true) (current : Option Value) :
    reevaluate rebuild current = (rebuild current, none) := if_pos h

theorem updateAll_flatMap_rowParts {row : Row} {ns : List Node}
    (h : ∀ n ∈ ns, updateAll row n.rowParts = ((n.update row).1.rowParts, (n.update row).2)) :
    updateAll row (ns.flatMap rowParts) =
      ((updateAll row ns).1.flatMap rowParts, (updateAll row ns).2) := by
  induction ns with
  | nil => rfl
  | cons n rest ih =>
    rw [List.flatMap_cons, updateAll_append, h n List.mem_cons_self,
      ih fun m hm => h m (List.mem_cons_of_mem n hm), updateAll]
    rcases n.update row with ⟨m, _ | e⟩
    · rcases updateAll row rest with ⟨ms, outcome⟩
      rfl
    · rfl

theorem updateAll_rowParts (row : Row) (n : Node) :
    updateAll row n.rowParts = ((n.update row).1.rowParts, (n.update row).2) := by
  induction n with
  | constant => rfl
  | probe label names faultOn => exact updateAll_singleton row (probe label names faultOn)
  | column name current =>
    rw [rowParts, updateAll_singleton, update]
    cases row.get? name <;> rfl
  | binary left op right current hleft hright =>
    have hleftSame := containsAggregate_update row left
    have hrightSame := containsAggregate_update row right
    rw [rowParts]
    split
    · next hdeferred =>
      rw [updateAll_append, hleft, hright, update_binary]
      rcases hl : left.update row with ⟨l, _ | e⟩ <;> rw [hl] at hleftSame
      · rcases hr : right.update row with ⟨r, _ | e⟩ <;> rw [hr] at hrightSame
        · have hparts : ((binary l op r none).containsAggregate) = true := by
            rw [containsAggregate, hleftSame, hrightSame, hdeferred]
          dsimp only
          rw [reevaluate_of_containsAggregate hparts, rowParts, hleftSame, hrightSame,
            if_pos hdeferred]
        · dsimp only
          rw [rowParts, hleftSame, hrightSame, if_pos hdeferred]
      · dsimp only
        rw [rowParts, hleftSame, if_pos hdeferred]
    · next heager =>
      rw [updateAll_singleton, update_binary]
      rcases hl : left.update row with ⟨l, _ | e⟩ <;> rw [hl] at hleftSame
      · rcases hr : right.update row with ⟨r, _ | e⟩ <;> rw [hr] at hrightSame
        · obtain ⟨c, hc⟩ := exists_fst_reevaluate (binary l op r) current
          dsimp only
          rw [hc, rowParts, hleftSame, hrightSame, if_neg heager]
        · dsimp only
          rw [rowParts, hleftSame, hrightSame, if_neg heager]
      · dsimp only
        rw [rowParts, hleftSame, if_neg heager]
  | unary op operand current ih =>
    have hsame := containsAggregate_update row operand
    rw [rowParts]
    split
    · next hdeferred =>
      rw [ih, update_unary]
      rcases ho : operand.update row with ⟨o, _ | e⟩ <;> rw [ho] at hsame
      · have hparts : ((unary op o none).containsAggregate) = true := by
          rw [containsAggregate, hsame, hdeferred]
        dsimp only
        rw [reevaluate_of_containsAggregate hparts, rowParts, hsame, if_pos hdeferred]
      · dsimp only
        rw [rowParts, hsame, if_pos hdeferred]
    · next heager =>
      rw [updateAll_singleton, update_unary]
      rcases ho : operand.update row with ⟨o, _ | e⟩ <;> rw [ho] at hsame
      · obtain ⟨c, hc⟩ := exists_fst_reevaluate (unary op o) current
        dsimp only
        rw [hc, rowParts, hsame, if_neg heager]
      · dsimp only
        rw [rowParts, hsame, if_neg heager]
  | call function arguments current ih =>
    have hsame := anyContainsAggregate_updateAll row arguments
    rw [rowParts, rowPartsOf_eq_flatMap]
    split
    · next hdeferred =>
      rw [updateAll_flatMap_rowParts ih, update_call]
      rcases ha : updateAll row arguments with ⟨as, _ | e⟩ <;> rw [ha] at hsame
      · have hparts : ((call function as none).containsAggregate) = true := by
          rw [containsAggregate, hsame, hdeferred]
        dsimp only
        rw [reevaluate_of_containsAggregate hparts, rowParts, hsame, if_pos hdeferred,
          rowPartsOf_eq_flatMap]
      · dsimp only
        rw [rowParts, hsame, if_pos hdeferred, rowPartsOf_eq_flatMap]
    · next heager =>
      rw [updateAll_singleton, update_call]
      rcases ha : updateAll row arguments with ⟨as, _ | e⟩ <;> rw [ha] at hsame
      · obtain ⟨c, hc⟩ := exists_fst_reevaluate (call function as) current
        dsimp only
        rw [hc, rowParts, hsame, if_neg heager]
      · dsimp only
        rw [rowParts, hsame, if_neg heager]
  | aggregate function argument acc ih =>
    rw [rowParts, updateAll_singleton, update]
    rcases argument.update row with ⟨a, _ | e⟩
    · obtain ⟨after, hafter⟩ := exists_fst_foldInto (aggregate function a) acc a.finalize
      dsimp only
      rw [hafter, rowParts]
    · rfl
  | aggregateRows function acc =>
    obtain ⟨after, hafter⟩ := exists_fst_foldInto (aggregateRows function) acc (.ok (.bool true))
    rw [rowParts, updateAll_singleton, update, hafter, rowParts]
  | named inner name ih => exact ih

/-! ### The parts of a flat tree -/

/-- An aggregate over what has no aggregate in it. -/
inductive IsPlainAggregate : Node → Prop where
  | aggregate (function : AggregateFunction) {argument : Node} (acc : Accumulator)
      (hargument : argument.containsAggregate = false) :
      IsPlainAggregate (.aggregate function argument acc)
  | aggregateRows (function : AggregateFunction) (acc : Accumulator) :
      IsPlainAggregate (.aggregateRows function acc)

theorem Flat.isPlainAggregate_of_mem_rowParts {n part : Node} (h : n.Flat)
    (hpart : part ∈ n.rowParts) (haggregate : part.containsAggregate = true) :
    part.IsPlainAggregate := by
  induction n with
  | constant | column | probe =>
    obtain rfl := List.mem_singleton.1 hpart
    cases haggregate
  | aggregateRows function acc =>
    obtain rfl := List.mem_singleton.1 hpart
    exact .aggregateRows function acc
  | aggregate function argument acc =>
    obtain rfl := List.mem_singleton.1 hpart
    exact .aggregate function acc h
  | binary left op right current hleft hright =>
    rw [rowParts] at hpart
    split at hpart
    · rcases List.mem_append.1 hpart with hpart | hpart
      · exact hleft h.1 hpart
      · exact hright h.2 hpart
    · next heager =>
      obtain rfl := List.mem_singleton.1 hpart
      exact absurd haggregate heager
  | unary op operand current ih =>
    rw [rowParts] at hpart
    split at hpart
    · exact ih h hpart
    · next heager =>
      obtain rfl := List.mem_singleton.1 hpart
      exact absurd haggregate heager
  | call function arguments current ih =>
    rw [rowParts, rowPartsOf_eq_flatMap] at hpart
    split at hpart
    · obtain ⟨n, hn, hpart⟩ := List.mem_flatMap.1 hpart
      exact ih n hn (flatAll_iff.1 h n hn) hpart
    · next heager =>
      obtain rfl := List.mem_singleton.1 hpart
      exact absurd haggregate heager
  | named inner name ih => exact ih h hpart

/-! ### The result of a fed tree -/

/-- **A fed tree gives its meaning.** If every step over a history succeeds, the result of a tree is
its meaning over that history. In a compiled tree no step gives a running total to an operator: a
step is one of the parts that a row reaches, and the aggregates among them have none below. -/
theorem finalize_feed_eq_meaning :
    (∀ (n : Node) (history : List Row), (feed history n.fresh).2 = none →
      (feed history n.fresh).1.finalize = n.meaning history) ∧
    ∀ (e : Expr) (n : Node) (history : List Row), e.compile = .ok n →
      (∀ row : Row, updateAll row (feed history n).1.rowParts =
        (((feed history n).1.update row).1.rowParts, ((feed history n).1.update row).2)) ∧
      ∀ part ∈ (feed history n).1.rowParts, part.containsAggregate = true →
        part.IsPlainAggregate := by
  refine ⟨fun n history hok => finalize_feed_fresh hok, fun e n history hcompile => ⟨?_, ?_⟩⟩
  · intro row
    exact updateAll_rowParts row _
  · intro part hpart haggregate
    have hflat : (feed history n).1.Flat := by
      rw [← flat_fresh_iff, fresh_feed, flat_fresh_iff]
      exact Expr.flat_of_compile hcompile
    exact hflat.isPlainAggregate_of_mem_rowParts hpart haggregate

def tenOverSum : Node :=
  .ofBinary (.constant (.int64 10)) (.arithmetic .div) (.ofAggregate .sum (.ofColumn "x"))

/-- After the first row the sum is zero, and only the division by the final sum takes place. -/
theorem finalize_feed_tenOverSum :
    ∃ (e : Expr) (history : List Row), e.compile = .ok tenOverSum ∧
      history = [⟨[("x", .int64 0)]⟩, ⟨[("x", .int64 5)]⟩] ∧
      (feed history tenOverSum.fresh).2 = none ∧
      tenOverSum.meaning history = .ok (.int64 2) ∧
      (feed history tenOverSum.fresh).1.finalize = tenOverSum.meaning history ∧
      ∀ part ∈ (feed history tenOverSum).1.rowParts, part.containsAggregate = true →
        part.IsPlainAggregate := by
  have hcompile : (Expr.binary (.literal (.int64 10)) (.arithmetic .div)
      (.aggregate .sum (.column "x"))).compile = .ok tenOverSum := by rfl
  have hok : (feed [⟨[("x", .int64 0)]⟩, ⟨[("x", .int64 5)]⟩] tenOverSum.fresh).2 = none := by
    rfl
  exact ⟨_, _, hcompile, rfl, hok, by rfl, finalize_feed_eq_meaning.1 tenOverSum _ hok,
    (finalize_feed_eq_meaning.2 _ tenOverSum _ hcompile).2⟩

end Node

end Columnar
