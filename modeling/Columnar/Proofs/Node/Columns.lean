import Columnar.Proofs.Node.Tree

/-!
# What a node reads of a row

A step looks at the columns of a node and at no other name of the row, so a node cannot tell rows
apart that agree on its columns, nor lists of such rows.
-/

namespace Columnar

/-- Two rows with the same values under some names. -/
def Row.AgreeOn (names : List String) (r s : Row) : Prop :=
  ∀ name ∈ names, r.get? name = s.get? name

theorem Row.AgreeOn.mono {names others : List String} {r s : Row} (h : r.AgreeOn names s)
    (hsub : others ⊆ names) : r.AgreeOn others s := fun name hname => h name (hsub hname)

namespace Node

theorem updateAll_congr {r s : Row} {ns : List Node} (h : ∀ n ∈ ns, n.update r = n.update s) :
    updateAll r ns = updateAll s ns := by
  induction ns with
  | nil => rfl
  | cons n rest ih =>
    rw [updateAll, updateAll, h n List.mem_cons_self,
      ih fun m hm => h m (List.mem_cons_of_mem n hm)]

theorem update_congr {r s : Row} {n : Node} (h : r.AgreeOn n.columnNames s) :
    n.update r = n.update s := by
  induction n with
  | constant | aggregateRows => rfl
  | probe label names faultOn =>
    have hvalues : names.map r.get? = names.map s.get? := List.map_congr_left h
    rw [update, update, hvalues]
  | column name current => rw [update, update, h name (List.mem_singleton.2 rfl)]
  | binary left op right current hleft hright =>
    rw [columnNames] at h
    rw [update_binary, update_binary, hleft (h.mono (List.subset_append_left _ _)),
      hright (h.mono (List.subset_append_right _ _))]
  | unary op operand current ih => rw [update_unary, update_unary, ih h]
  | call function arguments current ih =>
    rw [columnNames, columnNamesOf_eq_flatMap] at h
    have harguments : ∀ n ∈ arguments, n.update r = n.update s := fun n hn =>
      ih n hn (h.mono fun name hname => List.mem_flatMap.2 ⟨n, hn, hname⟩)
    rw [update_call, update_call, updateAll_congr harguments]
  | aggregate function argument acc ih => rw [update, update, ih h]
  | named inner name ih => rw [update, update, ih h]

/-- Two ways of making rows that agree on the columns of a node feed it alike. -/
theorem feed_map_congr {α : Type} {f g : α → Row} {n : Node} {l : List α}
    (h : ∀ a ∈ l, (f a).AgreeOn n.columnNames (g a)) : feed (l.map f) n = feed (l.map g) n := by
  induction l generalizing n with
  | nil => rfl
  | cons a rest ih =>
    have hnames := columnNames_update (g a) n
    rw [List.map_cons, List.map_cons, feed, feed, update_congr (h a List.mem_cons_self)]
    rcases hu : n.update (g a) with ⟨after, _ | e⟩
    · rw [hu] at hnames
      refine ih fun b hb => ?_
      rw [hnames]
      exact h b (List.mem_cons_of_mem a hb)
    · rfl

/-- A node that reads no column sees no more than how many rows there are. -/
theorem feed_eq_of_columnNames_eq_nil {n : Node} (hcolumns : n.columnNames = [])
    {rows rows' : List Row} (hlength : rows.length = rows'.length) :
    feed rows n = feed rows' n := by
  have hfeed := feed_map_congr (f := Prod.fst) (g := Prod.snd) (n := n) (l := rows.zip rows')
    fun pair _ name hname => absurd (hcolumns ▸ hname) List.not_mem_nil
  rwa [List.map_fst_zip (Nat.le_of_eq hlength),
    List.map_snd_zip (Nat.le_of_eq hlength.symm)] at hfeed

/-! ### The columns of a plan -/

theorem mem_leafColumns {nodes : List Node} {name : String} :
    name ∈ leafColumns nodes ↔ ∃ n ∈ nodes, name ∈ n.columnNames := by
  unfold leafColumns
  rw [Text.mem_sortNames, columnNamesOf_eq_flatMap, List.mem_flatMap]

theorem columnNames_subset_sortNames_leafColumns {nodes : List Node} {n : Node} (hn : n ∈ nodes) :
    n.columnNames ⊆ Text.sortNames (leafColumns nodes) := fun _ hname =>
  Text.mem_sortNames.2 (mem_leafColumns.2 ⟨n, hn, hname⟩)

end Node

end Columnar
