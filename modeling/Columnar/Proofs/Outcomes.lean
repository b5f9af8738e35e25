import Mathlib.Data.List.Forall2
import Mathlib.Data.List.Perm.Basic

/-!
# Outcomes along a list

A computation run along a list succeeds exactly when it does at every member, and otherwise ends
with the failure at the smallest position. `First` says where that is.
-/

namespace Columnar

variable {α β ε : Type}

theorem bind_eq_ok_iff {x : Except ε α} {f : α → Except ε β} {b : β} :
    (x >>= f) = .ok b ↔ ∃ a, x = .ok a ∧ f a = .ok b := by
  cases x with
  | ok a => exact ⟨fun h => ⟨a, rfl, h⟩, fun ⟨_, ha, h⟩ => Except.ok.inj ha ▸ h⟩
  | error e =>
    refine ⟨fun h => ?_, fun ⟨_, ha, _⟩ => ?_⟩
    · cases h
    · cases ha

theorem bind_eq_error_iff {x : Except ε α} {f : α → Except ε β} {e : ε} :
    (x >>= f) = .error e ↔ x = .error e ∨ ∃ a, x = .ok a ∧ f a = .error e := by
  cases x with
  | ok a =>
    refine ⟨fun h => .inr ⟨a, rfl, h⟩, ?_⟩
    intro hcases
    rcases hcases with h | ⟨_, ha, h⟩
    · cases h
    · exact Except.ok.inj ha ▸ h
  | error d =>
    refine ⟨fun h => .inl (congrArg Except.error (Except.error.inj h)), ?_⟩
    intro hcases
    rcases hcases with h | ⟨_, ha, _⟩
    · exact congrArg Except.error (Except.error.inj h)
    · cases ha

theorem map_eq_ok_iff {x : Except ε α} {f : α → β} {b : β} :
    x.map f = .ok b ↔ ∃ a, x = .ok a ∧ f a = b := by
  cases x <;> simp [Except.map]

theorem map_eq_error_iff {x : Except ε α} {f : α → β} {e : ε} :
    x.map f = .error e ↔ x = .error e := by
  cases x <;> simp [Except.map]

def First (p : α → Prop) (l : List α) (a : α) : Prop :=
  ∃ before after, l = before ++ a :: after ∧ p a ∧ ∀ b ∈ before, ¬ p b

theorem not_first_nil {p : α → Prop} {a : α} : ¬ First p [] a := by
  intro hfirst
  obtain ⟨before, after, h, -⟩ := hfirst
  simp at h

theorem first_cons_iff {p : α → Prop} {a b : α} {l : List α} :
    First p (b :: l) a ↔ p b ∧ a = b ∨ ¬ p b ∧ First p l a := by
  constructor
  · intro hfirst
    obtain ⟨_ | ⟨c, before⟩, after, h, ha, hbefore⟩ := hfirst
    · obtain ⟨rfl, rfl⟩ := List.cons.inj h
      exact .inl ⟨ha, rfl⟩
    · obtain ⟨rfl, rfl⟩ := List.cons.inj h
      obtain ⟨hb, hbefore⟩ := List.forall_mem_cons.1 hbefore
      exact .inr ⟨hb, before, after, rfl, ha, hbefore⟩
  · intro hcases
    rcases hcases with ⟨hb, rfl⟩ | ⟨hb, before, after, rfl, ha, hbefore⟩
    · exact ⟨[], l, rfl, hb, by simp⟩
    · exact ⟨b :: before, after, rfl, ha, List.forall_mem_cons.2 ⟨hb, hbefore⟩⟩

theorem First.mem {p : α → Prop} {a : α} {l : List α} (h : First p l a) : a ∈ l := by
  obtain ⟨before, after, rfl, -⟩ := h
  simp

theorem First.holds {p : α → Prop} {a : α} {l : List α} (h : First p l a) : p a := by
  obtain ⟨before, after, -, ha, -⟩ := h
  exact ha

theorem First.of_imp {p q : α → Prop} {a : α} {l : List α} (h : First p l a)
    (himp : ∀ b, q b → p b) (ha : q a) : First q l a := by
  obtain ⟨before, after, rfl, -, hbefore⟩ := h
  exact ⟨before, after, rfl, ha, fun b hb hq => hbefore b hb (himp b hq)⟩

/-- What first has a property first has every other that agrees with it along the list. -/
theorem First.congr {p q : α → Prop} {a : α} {l : List α} (h : First p l a)
    (hpq : ∀ b ∈ l, p b ↔ q b) : First q l a := by
  obtain ⟨before, after, rfl, ha, hbefore⟩ := h
  refine ⟨before, after, rfl, (hpq a (by simp)).1 ha, fun b hb hq => ?_⟩
  exact hbefore b hb ((hpq b (List.mem_append_left _ hb)).2 hq)

theorem First.find?_eq_some {p : α → Prop} [DecidablePred p] {a : α} {l : List α}
    (h : First p l a) : (l.find? fun b => p b) = some a := by
  obtain ⟨before, after, rfl, ha, hbefore⟩ := h
  exact List.find?_eq_some_iff_append.2
    ⟨decide_eq_true ha, before, after, rfl, fun b hb => by simp [hbefore b hb]⟩

theorem First.unique {p : α → Prop} {a b : α} {l : List α} (ha : First p l a)
    (hb : First p l b) : a = b := by
  induction l with
  | nil => exact absurd ha not_first_nil
  | cons c rest ih =>
    rcases first_cons_iff.1 ha with ⟨hc, rfl⟩ | ⟨hc, ha⟩
    · rcases first_cons_iff.1 hb with ⟨-, rfl⟩ | ⟨hnot, -⟩
      · rfl
      · exact absurd hc hnot
    · rcases first_cons_iff.1 hb with ⟨hnot, -⟩ | ⟨-, hb⟩
      · exact absurd hnot hc
      · exact ih ha hb

theorem exists_first {p : α → Prop} {l : List α} (h : ∃ a ∈ l, p a) : ∃ a, First p l a := by
  induction l with
  | nil =>
    obtain ⟨a, ha, -⟩ := h
    cases ha
  | cons b rest ih =>
    by_cases hb : p b
    · exact ⟨b, first_cons_iff.2 (.inl ⟨hb, rfl⟩)⟩
    · obtain ⟨a, ha, hp⟩ := h
      rcases List.mem_cons.1 ha with rfl | ha
      · exact absurd hp hb
      · obtain ⟨c, hc⟩ := ih ⟨a, ha, hp⟩
        exact ⟨c, first_cons_iff.2 (.inr ⟨hb, hc⟩)⟩

theorem first_iff_getElem? {p : α → Prop} {a : α} {l : List α} :
    First p l a ↔ ∃ i : Nat, l[i]? = some a ∧ p a ∧ ∀ j < i, ∀ b, l[j]? = some b → ¬ p b := by
  constructor
  · intro hfirst
    obtain ⟨before, after, rfl, ha, hbefore⟩ := hfirst
    refine ⟨before.length, by simp, ha, fun j hj b hb => ?_⟩
    rw [List.getElem?_append_left hj] at hb
    exact hbefore b (List.mem_of_getElem? hb)
  · intro hlowest
    obtain ⟨i, hi, ha, hbefore⟩ := hlowest
    obtain ⟨hlt, rfl⟩ := List.getElem?_eq_some_iff.1 hi
    refine ⟨l.take i, l.drop (i + 1), by simp, ha, fun b hb => ?_⟩
    obtain ⟨j, hj, rfl⟩ := List.mem_take_iff_getElem.1 hb
    exact hbefore j (by omega) _ (List.getElem?_eq_getElem (by omega))

/-- Two lists are related member by member over a third, if there is one between them. -/
theorem forall₂_comp_iff {γ : Type} {r : α → β → Prop} {s : β → γ → Prop} {l : List α}
    {k : List γ} :
    List.Forall₂ (fun a c => ∃ b, r a b ∧ s b c) l k ↔
      ∃ m, List.Forall₂ r l m ∧ List.Forall₂ s m k := by
  constructor
  · intro h
    induction h with
    | nil => exact ⟨[], .nil, .nil⟩
    | cons hac _ ih =>
      obtain ⟨b, hr, hs⟩ := hac
      obtain ⟨m, hrs, hss⟩ := ih
      exact ⟨b :: m, .cons hr hrs, .cons hs hss⟩
  · intro hboth
    obtain ⟨m, hr, hs⟩ := hboth
    induction hr generalizing k with
    | nil =>
      cases hs
      exact .nil
    | cons hab _ ih =>
      cases hs with
      | cons hbc hrest => exact .cons ⟨_, hab, hbc⟩ (ih hrest)

theorem forall₂_imp_of_mem {r s : α → β → Prop} {l : List α} {k : List β}
    (h : List.Forall₂ r l k) (himp : ∀ a ∈ l, ∀ b, r a b → s a b) : List.Forall₂ s l k := by
  induction h with
  | nil => exact .nil
  | @cons a b rest bs hab _ ih =>
    refine .cons (himp a List.mem_cons_self b hab) (ih fun c hc => ?_)
    exact himp c (List.mem_cons_of_mem a hc)

/-! ### Running along a list -/

theorem mapM_congr {f g : α → Except ε β} {l : List α} (h : ∀ a ∈ l, f a = g a) :
    l.mapM f = l.mapM g := by
  induction l with
  | nil => rfl
  | cons a rest ih =>
    rw [List.mapM_cons, List.mapM_cons, h a List.mem_cons_self,
      ih fun b hb => h b (List.mem_cons_of_mem a hb)]

theorem mapM_eq_ok_iff {f : α → Except ε β} {l : List α} {r : List β} :
    l.mapM f = .ok r ↔ List.Forall₂ (fun a b => f a = .ok b) l r := by
  induction l generalizing r with
  | nil =>
    rw [List.mapM_nil, List.forall₂_nil_left_iff]
    exact ⟨fun h => (Except.ok.inj h).symm, fun h => h ▸ rfl⟩
  | cons a rest ih =>
    rw [List.mapM_cons, bind_eq_ok_iff]
    constructor
    · intro hvalues
      obtain ⟨b, hb, h⟩ := hvalues
      obtain ⟨bs, hbs, h⟩ := bind_eq_ok_iff.1 h
      cases h
      exact .cons hb (ih.1 hbs)
    · intro hvalues
      rcases hvalues with _ | ⟨hb, hbs⟩
      exact ⟨_, hb, bind_eq_ok_iff.2 ⟨_, ih.2 hbs, rfl⟩⟩

theorem exists_mapM_eq_ok {f : α → Except ε β} {l : List α} (h : ∀ a ∈ l, ∃ b, f a = .ok b) :
    ∃ r, l.mapM f = .ok r := by
  induction l with
  | nil => exact ⟨[], rfl⟩
  | cons a rest ih =>
    obtain ⟨b, hb⟩ := h a List.mem_cons_self
    obtain ⟨bs, hbs⟩ := ih fun c hc => h c (List.mem_cons_of_mem a hc)
    refine ⟨b :: bs, ?_⟩
    rw [List.mapM_cons, hb, hbs]
    rfl

theorem forall_of_mapM_eq_ok {f : α → Except ε β} {l : List α} {r : List β} {p : β → Prop}
    (h : l.mapM f = .ok r) (hp : ∀ a ∈ l, ∀ b, f a = .ok b → p b) : ∀ b ∈ r, p b := by
  have hall := mapM_eq_ok_iff.1 h
  clear h
  induction hall with
  | nil => simp
  | @cons a b rest bs hab _ ih =>
    refine List.forall_mem_cons.2 ⟨hp a List.mem_cons_self b hab, ?_⟩
    exact ih fun c hc => hp c (List.mem_cons_of_mem a hc)

theorem exists_of_mapM_eq_ok {f : α → Except ε β} {l : List α} {r : List β} {a : α}
    (h : l.mapM f = .ok r) (ha : a ∈ l) : ∃ b ∈ r, f a = .ok b := by
  have hall := mapM_eq_ok_iff.1 h
  clear h
  induction hall with
  | nil => cases ha
  | @cons c b rest bs hcb _ ih =>
    rcases List.mem_cons.1 ha with rfl | ha
    · exact ⟨b, List.mem_cons_self, hcb⟩
    · obtain ⟨d, hd, had⟩ := ih ha
      exact ⟨d, List.mem_cons_of_mem b hd, had⟩

theorem map_eq_map_of_mapM_eq_ok {γ : Type} {f : α → Except ε β} {l : List α} {r : List β}
    {g : β → γ} {k : α → γ} (h : l.mapM f = .ok r)
    (hgk : ∀ a ∈ l, ∀ b, f a = .ok b → g b = k a) : r.map g = l.map k := by
  have hall := mapM_eq_ok_iff.1 h
  clear h
  induction hall with
  | nil => rfl
  | @cons a b rest bs hab _ ih =>
    rw [List.map_cons, List.map_cons, hgk a List.mem_cons_self b hab,
      ih fun c hc => hgk c (List.mem_cons_of_mem a hc)]

theorem exists_mapM_of_perm {f : α → Except ε β} {l l' : List α} {r : List β} (hperm : l.Perm l')
    (h : l.mapM f = .ok r) : ∃ r', l'.mapM f = .ok r' ∧ r.Perm r' := by
  obtain ⟨r', hall, hr⟩ := List.perm_comp_forall₂ hperm.symm (mapM_eq_ok_iff.1 h)
  exact ⟨r', mapM_eq_ok_iff.2 hall, hr.symm⟩

theorem mapM_map_zip {γ : Type} {f : α → Except ε β} {g : α → β → γ} (l : List α) :
    (l.mapM fun a => (f a).map (g a)) =
      (l.mapM f).map fun r => (l.zip r).map fun pair => g pair.1 pair.2 := by
  induction l with
  | nil => rfl
  | cons a rest ih =>
    rw [List.mapM_cons, List.mapM_cons, ih]
    cases f a with
    | error e => rfl
    | ok b => cases rest.mapM f <;> rfl

theorem mapM_eq_error_iff {f : α → Except ε β} {l : List α} {e : ε} :
    l.mapM f = .error e ↔ ∃ a, First (fun a => ∃ e, f a = .error e) l a ∧ f a = .error e := by
  induction l with
  | nil =>
    rw [List.mapM_nil]
    refine ⟨fun h => ?_, fun ⟨a, ha, _⟩ => absurd ha not_first_nil⟩
    cases h
  | cons b rest ih =>
    have htail : (∃ c, f b = .ok c ∧ (rest.mapM f >>= fun cs => pure (c :: cs)) = .error e) ↔
        (∃ c, f b = .ok c) ∧ rest.mapM f = .error e := by
      simp only [bind_eq_error_iff, ← exists_and_right]
      refine exists_congr fun c => and_congr_right fun _ => or_iff_left ?_
      intro hvalues
      obtain ⟨cs, -, h⟩ := hvalues
      cases h
    rw [List.mapM_cons, bind_eq_error_iff, htail, ih]
    simp only [first_cons_iff]
    constructor
    · intro hcases
      rcases hcases with hb | ⟨⟨c, hb⟩, a, ha, hfa⟩
      · exact ⟨b, .inl ⟨⟨e, hb⟩, rfl⟩, hb⟩
      · refine ⟨a, .inr ⟨?_, ha⟩, hfa⟩
        intro hfails
        obtain ⟨d, hd⟩ := hfails
        cases hb.symm.trans hd
    · intro hfirst
      obtain ⟨a, ⟨-, rfl⟩ | ⟨hnot, ha⟩, hfa⟩ := hfirst
      · exact .inl hfa
      · cases hb : f b with
        | ok c => exact .inr ⟨⟨c, rfl⟩, a, ha, hfa⟩
        | error d => exact absurd ⟨d, hb⟩ hnot

/-- A fold that fails does so at one member, after those before it were folded. -/
theorem foldlM_eq_error_iff {f : α → β → Except ε α} {l : List β} {a : α} {e : ε} :
    l.foldlM f a = .error e ↔ ∃ before b after c, l = before ++ b :: after ∧
      before.foldlM f a = .ok c ∧ f c b = .error e := by
  constructor
  · intro h
    induction l generalizing a with
    | nil => cases h
    | cons b rest ih =>
      rw [List.foldlM_cons] at h
      rcases bind_eq_error_iff.1 h with hb | ⟨d, hd, hrest⟩
      · exact ⟨[], b, rest, a, rfl, rfl, hb⟩
      · obtain ⟨before, c, after, d', rfl, hbefore, hc⟩ := ih hrest
        refine ⟨b :: before, c, after, d', rfl, ?_, hc⟩
        rw [List.foldlM_cons, hd]
        exact hbefore
  · intro hsplit
    obtain ⟨before, b, after, c, rfl, hbefore, hb⟩ := hsplit
    rw [List.foldlM_append, hbefore]
    change (b :: after).foldlM f c = _
    rw [List.foldlM_cons, hb]
    rfl

/-- In a fold that succeeds every member is folded, after those before it. -/
theorem exists_step_of_foldlM {f : α → β → Except ε α} {l : List β} {a d : α} {b : β}
    (h : l.foldlM f a = .ok d) (hb : b ∈ l) : ∃ before after c next, l = before ++ b :: after ∧
      before.foldlM f a = .ok c ∧ f c b = .ok next := by
  obtain ⟨before, after, rfl⟩ := List.append_of_mem hb
  rw [List.foldlM_append] at h
  obtain ⟨c, hc, h⟩ := bind_eq_ok_iff.1 h
  rw [List.foldlM_cons] at h
  obtain ⟨next, hnext, -⟩ := bind_eq_ok_iff.1 h
  exact ⟨before, after, c, next, rfl, hc, hnext⟩

theorem findSome?_eq_some_iff_first {f : α → Option β} {l : List α} {b : β} :
    l.findSome? f = some b ↔ ∃ a, First (fun a => ∃ b, f a = some b) l a ∧ f a = some b := by
  rw [List.findSome?_eq_some_iff]
  constructor
  · intro hsplit
    obtain ⟨before, a, after, rfl, ha, hbefore⟩ := hsplit
    refine ⟨a, ⟨before, after, rfl, ⟨b, ha⟩, fun c hc => ?_⟩, ha⟩
    intro hfails
    obtain ⟨d, hd⟩ := hfails
    rw [hbefore c hc] at hd
    cases hd
  · intro hfirst
    obtain ⟨a, ⟨before, after, rfl, -, hbefore⟩, ha⟩ := hfirst
    exact ⟨before, a, after, rfl, ha, fun c hc =>
      Option.eq_none_iff_forall_ne_some.2 fun d hd => hbefore c hc ⟨d, hd⟩⟩

theorem findSome?_eq_some_iff_getElem? {f : α → Option β} {l : List α} {b : β} :
    l.findSome? f = some b ↔ ∃ (i : Nat) (a : α), l[i]? = some a ∧ f a = some b ∧
      ∀ j < i, ∀ c, l[j]? = some c → f c = none := by
  rw [findSome?_eq_some_iff_first]
  simp only [first_iff_getElem?]
  constructor
  · intro hfirst
    obtain ⟨a, ⟨i, hi, -, hbefore⟩, ha⟩ := hfirst
    refine ⟨i, a, hi, ha, fun j hj c hc => Option.eq_none_iff_forall_ne_some.2 fun d hd => ?_⟩
    exact hbefore j hj c hc ⟨d, hd⟩
  · intro hlowest
    obtain ⟨i, a, hi, ha, hbefore⟩ := hlowest
    refine ⟨a, ⟨i, hi, ⟨b, ha⟩, fun j hj c hc hfound => ?_⟩, ha⟩
    obtain ⟨d, hd⟩ := hfound
    cases (hbefore j hj c hc).symm.trans hd

end Columnar
