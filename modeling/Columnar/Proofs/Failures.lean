import Columnar.Failures
import Mathlib.Data.List.Forall2

/-!
# The collector as a map

The entries of a collector ascend by position (`Ascending`), so it is a map from positions to
failures, and its first entry is that of the lowest position. A record changes the map where it has
no failure yet and nowhere else.
-/

namespace Columnar.Failures

variable {ε : Type} {failures : Failures ε} {entries : List (Nat × ε)} {p q : Nat} {failure : ε}

/-- Every entry stands before those of higher positions. -/
def Ascending (failures : Failures ε) : Prop := failures.entries.Pairwise fun a b => a.1 < b.1

theorem ascending_empty : (empty : Failures ε).Ascending := List.Pairwise.nil

@[simp] theorem get?_empty (q : Nat) : (empty : Failures ε).get? q = none := rfl

theorem get?_cons (p : Nat) (failure : ε) (entries : List (Nat × ε)) (q : Nat) :
    get? ⟨(p, failure) :: entries⟩ q = if q = p then some failure else get? ⟨entries⟩ q := by
  unfold get?
  rw [List.lookup_cons]
  by_cases h : q = p
  · rw [if_pos h, beq_iff_eq.2 h]
  · rw [if_neg h, beq_false_of_ne h]

theorem get?_eq_none_of_lt (h : ∀ entry ∈ entries, q < entry.1) : get? ⟨entries⟩ q = none :=
  List.lookup_eq_none_iff.2 fun entry hentry => bne_iff_ne.2 (Nat.ne_of_lt (h entry hentry))

/-! ### Recording -/

theorem mem_insertEntry {entry : Nat × ε} (h : entry ∈ insertEntry p failure entries) :
    entry = (p, failure) ∨ entry ∈ entries := by
  induction entries with
  | nil => exact .inl (List.mem_singleton.1 h)
  | cons head rest ih =>
    obtain ⟨position, other⟩ := head
    rw [insertEntry] at h
    split at h
    · exact List.mem_cons.1 h
    · split at h
      · exact .inr h
      · rcases List.mem_cons.1 h with rfl | h
        · exact .inr List.mem_cons_self
        · exact (ih h).imp_right (List.mem_cons_of_mem _)

theorem Ascending.record (h : failures.Ascending) (p : Nat) (failure : ε) :
    (failures.record p failure).Ascending := by
  obtain ⟨entries⟩ := failures
  change (insertEntry p failure entries).Pairwise _
  change entries.Pairwise _ at h
  induction entries with
  | nil => exact List.pairwise_singleton _ _
  | cons head rest ih =>
    obtain ⟨position, other⟩ := head
    obtain ⟨hhead, hrest⟩ := List.pairwise_cons.1 h
    rw [insertEntry]
    split
    · next hlt =>
      refine List.pairwise_cons.2 ⟨fun entry hentry => ?_, h⟩
      rcases List.mem_cons.1 hentry with rfl | hentry
      · exact hlt
      · exact Nat.lt_trans hlt (hhead entry hentry)
    · next hnlt =>
      split
      · exact h
      · next hne =>
        refine List.pairwise_cons.2 ⟨fun entry hentry => ?_, ih hrest⟩
        rcases mem_insertEntry hentry with rfl | hentry
        · exact Nat.lt_of_le_of_ne (Nat.le_of_not_lt hnlt) (Ne.symm hne)
        · exact hhead entry hentry

/-- The first failure recorded at a position counts, and other positions are not touched. -/
theorem get?_record (h : failures.Ascending) (p : Nat) (failure : ε) (q : Nat) :
    (failures.record p failure).get? q =
      if q = p then (failures.get? p).or (some failure) else failures.get? q := by
  obtain ⟨entries⟩ := failures
  change get? ⟨insertEntry p failure entries⟩ q = _
  change entries.Pairwise _ at h
  induction entries with
  | nil => exact get?_cons p failure [] q
  | cons head rest ih =>
    obtain ⟨position, other⟩ := head
    obtain ⟨hhead, hrest⟩ := List.pairwise_cons.1 h
    rw [insertEntry]
    split
    · next hlt =>
      have hnone : get? ⟨(position, other) :: rest⟩ p = none := by
        refine get?_eq_none_of_lt fun entry hentry => ?_
        rcases List.mem_cons.1 hentry with rfl | hentry
        · exact hlt
        · exact Nat.lt_trans hlt (hhead entry hentry)
      rw [get?_cons, hnone, Option.none_or]
    · split
      · next hsame =>
        subst hsame
        rw [get?_cons, get?_cons, if_pos rfl, Option.some_or]
        by_cases hq : q = p <;> simp only [hq, if_true, if_false]
      · next hne =>
        rw [get?_cons, ih hrest, get?_cons, get?_cons, if_neg hne]
        by_cases hq : q = position
        · rw [if_pos hq, if_neg fun hqp => hne (hqp.symm.trans hq), if_pos hq]
        · rw [if_neg hq, if_neg hq]

/-! ### Taking -/

theorem takeFirst_eq_some_iff (h : failures.Ascending) :
    failures.takeFirst.1 = some (p, failure) ↔
      failures.get? p = some failure ∧ ∀ q < p, failures.get? q = none := by
  obtain ⟨_ | ⟨⟨position, first⟩, rest⟩⟩ := failures
  · refine ⟨fun hnone => ?_, fun hsome => ?_⟩
    · cases hnone
    · cases hsome.1
  · have hhead := (List.pairwise_cons.1 h).1
    constructor
    · intro htaken
      obtain ⟨rfl, rfl⟩ := Prod.mk.inj (Option.some.inj htaken)
      refine ⟨by rw [get?_cons, if_pos rfl], fun q hq => get?_eq_none_of_lt fun entry hentry => ?_⟩
      rcases List.mem_cons.1 hentry with rfl | hentry
      · exact hq
      · exact Nat.lt_trans hq (hhead entry hentry)
    · intro hlowest
      obtain ⟨hsome, hnone⟩ := hlowest
      rw [get?_cons] at hsome
      by_cases hp : p = position
      · rw [if_pos hp] at hsome
        rw [hp, ← Option.some.inj hsome]
        rfl
      · -- A position behind the first entry lies above it, where a failure is recorded.
        rw [if_neg hp] at hsome
        have hlt : position < p := by
          by_contra hle
          refine absurd (hsome.symm.trans (get?_eq_none_of_lt fun entry hentry => ?_)) nofun
          exact Nat.lt_of_le_of_lt (Nat.le_of_not_lt hle) (hhead entry hentry)
        have hfirst := hnone position hlt
        rw [get?_cons, if_pos rfl] at hfirst
        cases hfirst

theorem takeFirst_eq_none_iff : failures.takeFirst.1 = none ↔ ∀ q, failures.get? q = none := by
  obtain ⟨_ | ⟨⟨position, first⟩, rest⟩⟩ := failures
  · exact iff_of_true rfl fun _ => rfl
  · refine iff_of_false nofun fun hnone => ?_
    have hfirst := hnone position
    rw [get?_cons, if_pos rfl] at hfirst
    cases hfirst

end Columnar.Failures
