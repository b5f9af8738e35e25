import Columnar.Proofs.Node.Tree

/-!
# A fed node stands for its history

The remembered values of a tree are tied to the rows it was fed by `Reflects`: a column holds the
value its name has in the last row, an operator holds either nothing or its meaning, and never
anything above an aggregate, and an accumulator has folded the meaning of its argument over every
initial part of the history. Every step keeps this (`Reflects.update`), so a run does, and the
result of a node that reflects a history is its meaning over that history.
-/

namespace Columnar

namespace Accumulator

theorem foldAll_concat {acc before after : Accumulator} {vs : List Value} {v : Value}
    (hbefore : acc.foldAll vs = .ok before) (hafter : before.take v = .ok after) :
    acc.foldAll (vs ++ [v]) = .ok after := by
  unfold foldAll at hbefore ⊢
  rw [List.foldlM_append, hbefore]
  change before.take v >>= pure = _
  rw [hafter]
  rfl

end Accumulator

namespace Node

/-- A remembered value is what the node means, and nothing is remembered above an aggregate. -/
def RemembersRightly (history : List Row) (n : Node) (current : Option Value) : Prop :=
  ∀ v, current = some v → n.containsAggregate = false ∧ n.meaning history = .ok v

mutual

/-- Everything in the tree is as the history of rows makes it. -/
def Reflects (history : List Row) : Node → Prop
  | constant _ | probe _ _ _ => True
  | column name current => (column name current).meaning history = .ok current
  | binary left op right current =>
    left.Reflects history ∧ right.Reflects history ∧
      RemembersRightly history (binary left op right none) current
  | unary op operand current =>
    operand.Reflects history ∧ RemembersRightly history (unary op operand none) current
  | call function arguments current =>
    ReflectsAll history arguments ∧ RemembersRightly history (call function arguments none) current
  | aggregate function argument acc =>
    argument.Reflects history ∧
      ∃ vs, (initialParts history).mapM argument.meaning = .ok vs ∧
        (Accumulator.start function).foldAll vs = .ok acc
  | aggregateRows function acc =>
    (Accumulator.start function).foldAll (history.map fun _ => .bool true) = .ok acc
  | named inner _ => inner.Reflects history

def ReflectsAll (history : List Row) : List Node → Prop
  | [] => True
  | n :: rest => n.Reflects history ∧ ReflectsAll history rest

end

@[simp] theorem reflectsAll_iff {history : List Row} {ns : List Node} :
    ReflectsAll history ns ↔ ∀ n ∈ ns, n.Reflects history := by
  induction ns with
  | nil => simp [ReflectsAll]
  | cons n rest ih => rw [ReflectsAll, ih, List.forall_mem_cons]

theorem remembersRightly_none (history : List Row) (n : Node) :
    RemembersRightly history n none := by
  intro v hv
  cases hv

theorem fresh_reflects (n : Node) : n.fresh.Reflects [] := by
  induction n with
  | constant | column | probe | aggregateRows => trivial
  | binary left op right current hleft hright =>
    rw [fresh, ofBinary, Reflects]
    exact ⟨hleft, hright, remembersRightly_none _ _⟩
  | unary op operand current ih =>
    rw [fresh, ofUnary, Reflects]
    exact ⟨ih, remembersRightly_none _ _⟩
  | call function arguments current ih =>
    rw [fresh, ofCall, Reflects, reflectsAll_iff, freshAll_eq_map, List.forall_mem_map]
    exact ⟨ih, remembersRightly_none _ _⟩
  | aggregate function argument acc ih =>
    rw [fresh, ofAggregate, Reflects]
    exact ⟨ih, [], rfl, rfl⟩
  | named inner name ih => exact ih

/-- The result of a node that reflects a history is its meaning over the history. -/
theorem Reflects.finalize_eq {history : List Row} {n : Node} (h : n.Reflects history) :
    n.finalize = n.meaning history := by
  induction n with
  | constant | probe => rfl
  | column name current => exact h.symm
  | binary left op right current hleft hright =>
    obtain ⟨hl, hr, hcurrent⟩ := h
    cases current with
    | none => rw [finalize, hleft hl, hright hr, meaning]
    | some v => exact (hcurrent v rfl).2.symm
  | unary op operand current ih =>
    obtain ⟨ho, hcurrent⟩ := h
    cases current with
    | none => rw [finalize, ih ho, meaning]
    | some v => exact (hcurrent v rfl).2.symm
  | call function arguments current ih =>
    obtain ⟨ha, hcurrent⟩ := h
    rw [reflectsAll_iff] at ha
    cases current with
    | none =>
      rw [finalize, meaning, finalizeAll_eq_mapM, meaningAll_eq_mapM,
        mapM_congr fun n hn => ih n hn (ha n hn)]
    | some v => exact (hcurrent v rfl).2.symm
  | aggregate function argument acc ih =>
    obtain ⟨-, vs, hvs, hacc⟩ := h
    rw [finalize, meaning, hvs]
    change _ = (Accumulator.start function).foldAll vs >>= _
    rw [hacc]
    rfl
  | aggregateRows function acc =>
    rw [Reflects] at h
    rw [finalize, meaning, h]
    rfl
  | named inner name ih =>
    rw [finalize, meaning]
    exact ih h

/-- An operator whose children reflect the history does so again at the end of its step. -/
theorem Reflects.reevaluate {history : List Row} {rebuild : Option Value → Node}
    {current : Option Value} (hnone : (rebuild none).Reflects history)
    (hrebuild : ∀ c, RemembersRightly history (rebuild none) c → (rebuild c).Reflects history)
    (hcurrent : ∀ v, current = some v → (rebuild none).containsAggregate = false)
    (hok : (reevaluate rebuild current).2 = none) :
    (reevaluate rebuild current).1.Reflects history := by
  unfold Node.reevaluate at hok ⊢
  split at hok
  · next hdeferred =>
    rw [if_pos hdeferred]
    refine hrebuild current fun v hv => ?_
    exact absurd hdeferred (Bool.eq_false_iff.1 (hcurrent v hv))
  · next heager =>
    rw [if_neg heager]
    cases hfinal : (rebuild none).finalize with
    | ok v =>
      refine hrebuild (some v) fun w hw => ⟨Bool.eq_false_iff.2 heager, ?_⟩
      rw [← Option.some.inj hw, ← hfinal]
      exact hnone.finalize_eq.symm
    | error e =>
      rw [hfinal] at hok
      cases hok

/-! ### One step -/

theorem Reflects.update_column {history : List Row} {row : Row} {name : String} {current : Value}
    (hok : ((column name current).update row).2 = none) :
    ((column name current).update row).1.Reflects (history ++ [row]) := by
  rw [update] at hok ⊢
  cases hv : row.get? name with
  | none =>
    rw [hv] at hok
    cases hok
  | some v =>
    change (column name v).meaning (history ++ [row]) = .ok v
    rw [meaning, List.getLast?_concat]
    dsimp only
    rw [hv]

theorem Reflects.foldInto {vs : List Value} {start acc : Accumulator}
    {rebuild : Accumulator → Node} {value : Except EvalError Value}
    (hacc : start.foldAll vs = .ok acc) (hok : (foldInto rebuild acc value).2 = none) :
    ∃ v after, value = .ok v ∧ start.foldAll (vs ++ [v]) = .ok after ∧
      (foldInto rebuild acc value).1 = rebuild after := by
  rw [foldInto_eq] at hok ⊢
  cases hbind : value >>= acc.take with
  | error e =>
    rw [hbind] at hok
    cases hok
  | ok after =>
    obtain ⟨v, hv, htaken⟩ := bind_eq_ok_iff.1 hbind
    exact ⟨v, after, hv, Accumulator.foldAll_concat hacc htaken, rfl⟩

/-- A step that succeeds extends the history by its row. -/
theorem Reflects.update {history : List Row} {row : Row} {n : Node} (h : n.Reflects history)
    (hok : (n.update row).2 = none) : (n.update row).1.Reflects (history ++ [row]) := by
  induction n with
  | constant | probe => trivial
  | column name current => exact update_column hok
  | binary left op right current hleft hright =>
    obtain ⟨hl, hr, hcurrent⟩ := h
    have hleftSame := containsAggregate_update row left
    have hrightSame := containsAggregate_update row right
    rw [update_binary] at hok ⊢
    rcases hleftStep : left.update row with ⟨l, _ | e⟩ <;> rw [hleftStep] at hok hleft hleftSame
    · rcases hrightStep : right.update row with ⟨r, _ | e⟩ <;>
        rw [hrightStep] at hok hright hrightSame
      · have hlAfter := hleft hl rfl
        have hrAfter := hright hr rfl
        refine Reflects.reevaluate ⟨hlAfter, hrAfter, remembersRightly_none _ _⟩
          (fun c hc => ⟨hlAfter, hrAfter, hc⟩) (fun v hv => ?_) hok
        rw [containsAggregate, hleftSame, hrightSame]
        exact (hcurrent v hv).1
      · cases hok
    · cases hok
  | unary op operand current ih =>
    obtain ⟨ho, hcurrent⟩ := h
    have hsame := containsAggregate_update row operand
    rw [update_unary] at hok ⊢
    rcases hstep : operand.update row with ⟨o, _ | e⟩ <;> rw [hstep] at hok ih hsame
    · have hoAfter := ih ho rfl
      refine Reflects.reevaluate ⟨hoAfter, remembersRightly_none _ _⟩
        (fun c hc => ⟨hoAfter, hc⟩) (fun v hv => ?_) hok
      rw [containsAggregate, hsame]
      exact (hcurrent v hv).1
    · cases hok
  | call function arguments current ih =>
    obtain ⟨ha, hcurrent⟩ := h
    rw [reflectsAll_iff] at ha
    have hsnd := snd_updateAll row arguments
    have hfst := @fst_updateAll row arguments
    have hsame := anyContainsAggregate_updateAll row arguments
    rw [update_call] at hok ⊢
    rcases hstep : updateAll row arguments with ⟨as, _ | e⟩ <;> rw [hstep] at hok hsnd hfst hsame
    · have hsucceed := List.findSome?_eq_none_iff.1 hsnd.symm
      have has : as = arguments.map fun n => (n.update row).1 := hfst rfl
      have hasAfter : ReflectsAll (history ++ [row]) as := by
        rw [reflectsAll_iff, has, List.forall_mem_map]
        exact fun n hn => ih n hn (ha n hn) (hsucceed n hn)
      refine Reflects.reevaluate ⟨hasAfter, remembersRightly_none _ _⟩
        (fun c hc => ⟨hasAfter, hc⟩) (fun v hv => ?_) hok
      rw [containsAggregate, hsame]
      exact (hcurrent v hv).1
    · cases hok
  | aggregate function argument acc ih =>
    obtain ⟨ha, vs, hvs, hacc⟩ := h
    have hmeaning := meaning_update row argument
    rw [Node.update] at hok ⊢
    rcases hstep : argument.update row with ⟨a, _ | e⟩ <;> rw [hstep] at hok ih hmeaning
    · have haAfter := ih ha rfl
      obtain ⟨v, after, hv, hfolded, hafter⟩ := Reflects.foldInto hacc hok
      dsimp only at hmeaning ⊢
      rw [hafter]
      refine ⟨haAfter, vs ++ [v], ?_, hfolded⟩
      rw [initialParts_concat, List.mapM_append, hmeaning, hvs, List.mapM_cons, List.mapM_nil,
        ← hmeaning, ← haAfter.finalize_eq, hv]
      rfl
    · cases hok
  | aggregateRows function acc =>
    rw [Node.update] at hok ⊢
    obtain ⟨v, after, hv, hfolded, hafter⟩ := Reflects.foldInto h hok
    rw [hafter, Reflects, List.map_append]
    cases hv
    exact hfolded
  | named inner name ih =>
    rw [Node.update] at hok ⊢
    exact ih h hok

/-! ### A run -/

theorem Reflects.feed {history rows : List Row} {n : Node} (h : n.Reflects history)
    (hok : (feed rows n).2 = none) : (feed rows n).1.Reflects (history ++ rows) := by
  induction rows generalizing history n with
  | nil => rwa [List.append_nil]
  | cons row rows ih =>
    have hupdate := @Reflects.update history row n h
    rw [Node.feed] at hok ⊢
    rcases hstep : n.update row with ⟨after, _ | e⟩ <;> rw [hstep] at hok hupdate
    · have hafter := ih (hupdate rfl) hok
      rwa [List.append_assoc] at hafter
    · cases hok

theorem finalize_feed_fresh {history : List Row} {n : Node}
    (hok : (feed history n.fresh).2 = none) :
    (feed history n.fresh).1.finalize = n.meaning history := by
  rw [((fresh_reflects n).feed hok).finalize_eq, meaning_feed, meaning_fresh, List.nil_append]

theorem finalize_feed_of_fresh {history : List Row} {n : Node} (hfresh : n.fresh = n)
    (hok : (feed history n).2 = none) : (feed history n).1.finalize = n.meaning history := by
  rw [← hfresh] at hok ⊢
  rw [finalize_feed_fresh hok, hfresh]

end Node

end Columnar
