import Columnar.Proofs.Accumulator
import Columnar.Proofs.Expr.AggregateParts
import Columnar.Proofs.Expr.Exact
import Columnar.Proofs.Node.Columns
import Columnar.Proofs.Node.History
import Columnar.Proofs.Node.PartFeeds

/-!
# Expressions over reordered rows

Let rows be reordered on which an expression has no floats and reads columns in aggregates only. A
part without columns does not see the order at all. An aggregate has the same values to fold, as
each is computed on a row of its own, and of exact values the order matters to a sum alone, and to
that only if a total on the way is too large. So much holds of each part, and the operators above
see nothing but the final values of the parts (`ColumnsAggregated.reordered`).
-/

namespace Columnar.Expr

/-- A sum in the expression, taken over the rows in order, gets too large before the last. -/
inductive SumOverflows (e : Expr) (rows : List Row) : String → Prop where
  | intro {argument : Expr} {a : Node} {vs : List Value} {text : String}
      (hmem : aggregate .sum argument ∈ e.subexpressions) (ha : argument.compile = .ok a)
      (hvs : rows.mapM (fun row => a.evaluate row) = .ok vs)
      (h : Accumulator.SumOverflows vs text) : SumOverflows e rows text

/-- What rows in another order can bring a node to: what they brought it to before, or a sum that
overflows. -/
inductive Reordered (e : Expr) (rows rows' : List Row) (n : Node) : Prop where
  | same (hfeed : (n.feed rows').2 = none) (hmeaning : n.meaning rows' = n.meaning rows)
  | overflow {text : String} (hfeed : (n.feed rows').2 = some (.eval (.overflow text)))
      (hsum : e.SumOverflows rows' text)

variable {e : Expr} {rows rows' : List Row} {n : Node}

/-- A fresh node that has the same result after both orders means the same. -/
theorem Reordered.of_finalize (hfresh : n.fresh = n) (hok : (n.feed rows).2 = none)
    (hok' : (n.feed rows').2 = none)
    (hresult : (n.feed rows').1.finalize = (n.feed rows).1.finalize) :
    e.Reordered rows rows' n := by
  refine .same hok' ?_
  rw [← Node.finalize_feed_of_fresh hfresh hok', hresult, Node.finalize_feed_of_fresh hfresh hok]

/-- One part: the values it folds are reordered with the rows. -/
theorem PartOf.reordered {part : Node} (h : e.PartOf part) (hexact : e.Exact)
    (hrows : ∀ row ∈ rows, row.ExactOn e.columnNames) (hperm : rows.Perm rows')
    (hok : (part.feed rows).2 = none) : e.Reordered rows rows' part := by
  cases h with
  | columnless hfresh hcolumns =>
    have hfeed := Node.feed_eq_of_columnNames_eq_nil hcolumns hperm.length_eq
    exact .of_finalize hfresh hok (hfeed ▸ hok) (by rw [hfeed])
  | @aggregate function argument a hmem hflat ha =>
    have hlevel : a.containsAggregate = false := (containsAggregate_of_compile ha).trans hflat
    have hargument := subexpressions_trans (argument_mem_subexpressions function argument) hmem
    have hfunction : function ≠ .avg := by
      rintro rfl
      exact hexact.average argument hmem
    -- What was folded in the first order are exact values, one for each row.
    have hanswers := Node.answers_feed_aggregate function hlevel (.start function) rows
    obtain ⟨v, hv⟩ := hanswers.exists_ok hok
    rw [hv] at hanswers
    obtain ⟨acc, hacc, rfl⟩ := map_eq_ok_iff.1 hv
    obtain ⟨vs, hvs, hfold⟩ := Node.exists_mapM_of_foldValues hacc
    have hvsExact := hexact.isFloat_of_mapM hargument ha hflat hrows hvs
    -- In the second order the same values are folded, reordered with the rows.
    obtain ⟨vs', hvs', hvsPerm⟩ := exists_mapM_of_perm hperm hvs
    have hanswers' := Node.answers_feed_aggregate function hlevel (.start function) rows'
    rw [Node.foldValues_of_mapM hvs'] at hanswers'
    rcases Accumulator.foldAll_perm hfunction hvsExact hvsPerm hfold with hsame | hfails
    · rw [hsame] at hanswers'
      obtain ⟨hok', hresult'⟩ := hanswers'.of_ok
      have hfresh : (Node.ofAggregate function a).fresh = Node.ofAggregate function a := by
        rw [Node.ofAggregate, Node.fresh, fresh_of_compile ha, Node.ofAggregate]
      exact .of_finalize hfresh hok hok' (hresult'.trans hanswers.of_ok.2.symm)
    · obtain ⟨text, herror, rfl, hsum⟩ := hfails
      rw [herror] at hanswers'
      exact .overflow hanswers'.of_error (.intro hmem ha hvs' hsum)

/-- An exact expression that reads columns in aggregates only, and can be fed rows of exact values
in one order, has the same value after any other order, unless a sum in it overflows there. -/
theorem ColumnsAggregated.reordered (h : e.ColumnsAggregated) (hexact : e.Exact)
    (hcompile : e.compile = .ok n) (hrows : ∀ row ∈ rows, row.ExactOn e.columnNames)
    (hperm : rows.Perm rows') (hok : (n.feed rows).2 = none) : e.Reordered rows rows' n := by
  have hparts := Node.feed_eq_none_iff_rowParts.1 hok
  have hreordered : ∀ part ∈ n.rowParts, e.Reordered rows rows' part := fun part hpart =>
    (h.partOf hcompile hpart).reordered hexact hrows hperm (hparts part hpart)
  cases hfeed : (n.feed rows').2 with
  | none =>
    have hparts' := Node.feed_eq_none_iff_rowParts.1 hfeed
    refine .same hfeed (Node.meaning_congr_of_rowParts fun part hpart => ?_)
    rcases hreordered part hpart with ⟨-, hmeaning⟩ | ⟨hfails, -⟩
    · exact hmeaning
    · cases hfails.symm.trans (hparts' part hpart)
  | some fault =>
    obtain ⟨part, hpart, hfault⟩ := Node.exists_part_of_feed hfeed
    rcases hreordered part hpart with ⟨hsucceeds, -⟩ | ⟨hfails, hsum⟩
    · cases hsucceeds.symm.trans hfault
    · cases hfails.symm.trans hfault
      exact .overflow hfeed hsum

end Columnar.Expr
