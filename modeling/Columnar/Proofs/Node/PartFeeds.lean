import Columnar.Proofs.Node.RowParts

/-!
# Feeding a tree and feeding its parts

A row reaches the parts of a tree from left to right, and no part sees another. So feeding a tree
fails only as feeding one of its parts alone does, and succeeds exactly when all of them can be fed.
What a tree means over a history is what its operators make of the meanings of its parts.
-/

namespace Columnar

namespace Node

variable {row : Row} {rows : List Row} {n : Node}

theorem snd_update_eq_findSome? (row : Row) (n : Node) :
    (n.update row).2 = n.rowParts.findSome? fun part => (part.update row).2 := by
  rw [← snd_updateAll, updateAll_rowParts]

/-- After a step that succeeds the parts are those of before, each after its own step. -/
theorem rowParts_update (h : (n.update row).2 = none) :
    (n.update row).1.rowParts = n.rowParts.map fun part => (part.update row).1 := by
  have hparts := updateAll_rowParts row n
  rw [← fst_updateAll ((congrArg Prod.snd hparts).trans h), hparts]

theorem feed_cons_of_update (h : (n.update row).2 = none) (rows : List Row) :
    feed (row :: rows) n = feed rows (n.update row).1 := by
  rw [feed]
  rcases hu : n.update row with ⟨after, _ | e⟩
  · rfl
  · rw [hu] at h
    cases h

theorem feed_cons_of_fault {fault : Fault} (h : (n.update row).2 = some fault) :
    (feed (row :: rows) n).2 = some fault := by
  rw [feed]
  rcases hu : n.update row with ⟨after, _ | e⟩ <;> rw [hu] at h
  · cases h
  · exact h

theorem update_eq_none_of_feed (h : (feed (row :: rows) n).2 = none) : (n.update row).2 = none :=
  Option.eq_none_iff_forall_ne_some.2 fun fault hfault => by
    cases (feed_cons_of_fault hfault).symm.trans h

theorem feed_append {n after : Node} (h : feed rows n = (after, none)) (rest : List Row) :
    feed (rows ++ rest) n = feed rest after := by
  induction rows generalizing n with
  | nil =>
    cases h
    rfl
  | cons row rows ih =>
    have hnone : (feed (row :: rows) n).2 = none := by rw [h]
    have hstep := update_eq_none_of_feed hnone
    rw [feed_cons_of_update hstep] at h
    rw [List.cons_append, feed_cons_of_update hstep, ih h]

/-- The fault of a tree is that of one of its parts. -/
theorem exists_part_of_feed {fault : Fault} (h : (feed rows n).2 = some fault) :
    ∃ part ∈ n.rowParts, (feed rows part).2 = some fault := by
  induction rows generalizing n with
  | nil => cases h
  | cons row rows ih =>
    cases hstep : (n.update row).2 with
    | none =>
      rw [feed_cons_of_update hstep] at h
      obtain ⟨after, hafter, hfault⟩ := ih h
      rw [rowParts_update hstep] at hafter
      obtain ⟨part, hpart, rfl⟩ := List.mem_map.1 hafter
      rw [snd_update_eq_findSome?, List.findSome?_eq_none_iff] at hstep
      refine ⟨part, hpart, ?_⟩
      rwa [feed_cons_of_update (hstep part hpart)]
    | some first =>
      cases (feed_cons_of_fault hstep).symm.trans h
      rw [snd_update_eq_findSome?] at hstep
      obtain ⟨part, hpart, hfault⟩ := List.exists_of_findSome?_eq_some hstep
      exact ⟨part, hpart, feed_cons_of_fault hfault⟩

theorem feed_eq_none_iff_rowParts :
    (feed rows n).2 = none ↔ ∀ part ∈ n.rowParts, (feed rows part).2 = none := by
  constructor
  · intro h
    induction rows generalizing n with
    | nil => exact fun part _ => rfl
    | cons row rows ih =>
      have hstep := update_eq_none_of_feed h
      rw [feed_cons_of_update hstep] at h
      have hrest := ih h
      rw [rowParts_update hstep, List.forall_mem_map] at hrest
      rw [snd_update_eq_findSome?, List.findSome?_eq_none_iff] at hstep
      intro part hpart
      rw [feed_cons_of_update (hstep part hpart)]
      exact hrest part hpart
  · refine fun h => Option.eq_none_iff_forall_ne_some.2 fun fault hfault => ?_
    obtain ⟨part, hpart, hfault⟩ := exists_part_of_feed hfault
    cases (h part hpart).symm.trans hfault

/-- Histories that mean the same to every part mean the same to the tree. -/
theorem meaning_congr_of_rowParts {history history' : List Row}
    (h : ∀ part ∈ n.rowParts, part.meaning history = part.meaning history') :
    n.meaning history = n.meaning history' := by
  induction n with
  | constant | column | aggregate | aggregateRows | probe => exact h _ (List.mem_singleton.2 rfl)
  | binary left op right current hleft hright =>
    rw [rowParts] at h
    split at h
    · rw [meaning, meaning, hleft fun part hpart => h part (List.mem_append_left _ hpart),
        hright fun part hpart => h part (List.mem_append_right _ hpart)]
    · exact h _ (List.mem_singleton.2 rfl)
  | unary op operand current ih =>
    rw [rowParts] at h
    split at h
    · rw [meaning, meaning, ih h]
    · exact h _ (List.mem_singleton.2 rfl)
  | call function arguments current ih =>
    rw [rowParts, rowPartsOf_eq_flatMap] at h
    split at h
    · have harguments : ∀ n ∈ arguments, n.meaning history = n.meaning history' := fun n hn =>
        ih n hn fun part hpart => h part (List.mem_flatMap.2 ⟨n, hn, hpart⟩)
      rw [meaning, meaning, meaningAll_eq_mapM, meaningAll_eq_mapM, mapM_congr harguments]
    · exact h _ (List.mem_singleton.2 rfl)
  | named inner name ih =>
    rw [meaning, meaning]
    exact ih h

end Node

end Columnar
