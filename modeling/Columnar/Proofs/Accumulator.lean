import Columnar.Accumulator
import Columnar.Proofs.Outcomes
import Columnar.Proofs.Value.Order
import Mathlib.Algebra.BigOperators.Group.List.Basic
import Mathlib.Algebra.Ring.Int.Defs

/-!
# What accumulators hold

After a list of exact values an accumulator is determined by the values, whatever their order
(`Accumulator.Summarizes`): a count has the number of those that are not null, a sum has their total
as a mathematical integer, and an extreme has one of them that none of the others would replace.
Every step keeps this, so a fold that succeeds on a list gives the same accumulator on every
reordering on which it succeeds. Only sums can fail there: the total of all values fits, but that of
the first of them may not.
-/

namespace Columnar

/-! ### Sums -/

def Value.int64? : Value → Option Int64
  | int64 n => some n
  | _ => none

namespace RunningSum

/-- The sum of the integers among the values. -/
inductive Totals (vs : List Value) : RunningSum → Prop where
  | empty (h : vs.filterMap Value.int64? = []) : Totals vs .empty
  | int {total : Int64} (hne : vs.filterMap Value.int64? ≠ [])
      (h : total.toInt = ((vs.filterMap Value.int64?).map Int64.toInt).sum) : Totals vs (.int total)

variable {vs : List Value} {running next : RunningSum} {v : Value}

/-- An exact value that a sum takes is a null or an integer. -/
theorem null_or_int64_of_add (hexact : v.isFloat = false) (h : running.add v = .ok next) :
    v = .null ∨ ∃ n, v = .int64 n := by
  cases v with
  | null => exact .inl rfl
  | int64 n => exact .inr ⟨n, rfl⟩
  | float32 | float64 => cases hexact
  | _ => cases running <;> cases h

/-- A sum of integers takes nulls and integers, and fails at the integer that makes it too large. -/
theorem Totals.add_eq_error (hrunning : running.Totals vs) (hv : v = .null ∨ ∃ n, v = .int64 n)
    {e : EvalError} (h : running.add v = .error e) :
    ∃ total n, running = .int total ∧ v = .int64 n ∧ checked (total.toInt + n.toInt) = none ∧
      e = .overflow ("SUM " ++ intText total.toInt ++ " + " ++ intText n.toInt) := by
  obtain rfl | ⟨n, rfl⟩ := hv
  · cases running <;> cases h
  · cases hrunning with
    | empty => cases h
    | @int total =>
      rw [add] at h
      cases hsum : checked (total.toInt + n.toInt) with
      | some m =>
        rw [hsum] at h
        cases h
      | none =>
        rw [hsum] at h
        cases h
        exact ⟨total, n, rfl, rfl, hsum, rfl⟩

theorem Totals.add (hrunning : running.Totals vs) (hexact : v.isFloat = false)
    (h : running.add v = .ok next) : next.Totals (vs ++ [v]) := by
  have hvalue := null_or_int64_of_add hexact h
  obtain rfl | ⟨n, rfl⟩ := hvalue
  · have hsame : (vs ++ [Value.null]).filterMap Value.int64? = vs.filterMap Value.int64? := by
      simp [Value.int64?]
    cases hrunning with
    | empty hnone =>
      cases h
      exact .empty (hsame.trans hnone)
    | int hne htotal =>
      cases h
      exact .int (hsame ▸ hne) (hsame ▸ htotal)
  · have happend : (vs ++ [Value.int64 n]).filterMap Value.int64? =
        vs.filterMap Value.int64? ++ [n] := by
      rw [List.filterMap_append]
      rfl
    cases hrunning with
    | empty hnone =>
      cases h
      rw [hnone] at happend
      refine .int ?_ ?_
      · rw [happend]
        exact List.cons_ne_nil n []
      · rw [happend]
        simp
    | @int total hne htotal =>
      rw [RunningSum.add] at h
      cases hsum : checked (total.toInt + n.toInt) with
      | none =>
        rw [hsum] at h
        cases h
      | some m =>
        rw [hsum] at h
        cases h
        refine .int ?_ ?_
        · rw [happend]
          exact List.append_ne_nil_of_right_ne_nil _ (List.cons_ne_nil n [])
        · rw [happend, checked_eq_some_iff.1 hsum, htotal]
          simp

theorem Totals.eq_of_perm {vs' : List Value} {running' : RunningSum} (h : running.Totals vs)
    (h' : running'.Totals vs') (hperm : vs.Perm vs') : running = running' := by
  have hints := hperm.filterMap Value.int64?
  cases h with
  | empty hnone =>
    cases h' with
    | empty => rfl
    | int hne => exact absurd (hnone ▸ hints).nil_eq.symm hne
  | int hne htotal =>
    cases h' with
    | empty hnone => exact absurd (hnone ▸ hints).eq_nil hne
    | int hne' htotal' =>
      rw [(hints.map Int64.toInt).sum_eq, ← htotal', Int64.toInt_inj] at htotal
      rw [htotal]

end RunningSum

/-! ### Extremes -/

namespace Extreme

variable {side : Extreme} {vs : List Value} {held next : Option Value} {v : Value}

/-- All values but nulls are of one type that has an order, and of these one is held that none of
them replaces. -/
inductive Holds (side : Extreme) (vs : List Value) : Option Value → Prop where
  | ofNulls (h : ∀ v ∈ vs, v = .null) : Holds side vs none
  | ofBest {m : Value} (hmem : m ∈ vs) (horder : m.dataType.isOrderable = true)
      (hbest : ∀ v ∈ vs, v ≠ .null → v.dataType = m.dataType ∧ v.compare? m ≠ some side.replaces) :
      Holds side vs (some m)

theorem replaces_ne_eq (side : Extreme) : side.replaces ≠ .eq := by
  cases side <;> decide

theorem choose_of_dataType_eq {h : Value} (htype : h.dataType = v.dataType) :
    side.choose h v = if v.compare? h = some side.replaces then v else h := by
  unfold choose Value.promote
  rw [if_pos htype]

/-- What a step does to an extreme of exact values. -/
theorem take_cases (hheld : ∀ h, held = some h → h.isFloat = false) (hexact : v.isFloat = false)
    (h : side.take held v = .ok next) :
    (v = .null ∧ next = held) ∨
      v.dataType.isOrderable = true ∧
        ((held = none ∧ next = some v) ∨
          ∃ m, held = some m ∧ m.dataType = v.dataType ∧
            next = some (if v.compare? m = some side.replaces then v else m)) := by
  rw [take_eq] at h
  split at h
  · next hnull =>
    cases h
    exact .inl ⟨Value.isNull_iff.1 hnull, rfl⟩
  · split at h
    · cases h
    · next horder =>
      have horder : v.dataType.isOrderable = true := by simpa using horder
      refine .inr ⟨horder, ?_⟩
      cases held with
      | none =>
        cases h
        exact .inl ⟨rfl, rfl⟩
      | some m =>
        dsimp only at h
        split at h
        · next htypes =>
          have htype : m.dataType = v.dataType := by
            rcases Bool.or_eq_true_iff.1 htypes with htype | hnumeric
            · exact of_decide_eq_true htype
            · obtain ⟨hm, hv⟩ := Bool.and_eq_true_iff.1 hnumeric
              exact (Value.dataType_of_isNumeric (hheld m rfl) hm).trans
                (Value.dataType_of_isNumeric hexact hv).symm
          cases h
          exact .inr ⟨m, rfl, htype, by rw [choose_of_dataType_eq htype]⟩
        · cases h

/-- A value of the type of the one held, if there is one, can be taken. -/
theorem exists_take (hv : v ≠ .null → v.dataType.isOrderable = true)
    (hheld : v ≠ .null → ∀ m, held = some m → m.dataType = v.dataType) :
    ∃ next, side.take held v = .ok next := by
  rw [take_eq]
  by_cases hnull : v = .null
  · exact ⟨held, if_pos (Value.isNull_iff.2 hnull)⟩
  · rw [if_neg (mt Value.isNull_iff.1 hnull), if_neg (by simp [hv hnull])]
    cases held with
    | none => exact ⟨_, rfl⟩
    | some m => exact ⟨_, if_pos (by simp [hheld hnull m rfl])⟩

theorem ne_null_of_isOrderable (h : v.dataType.isOrderable = true) : v ≠ .null := by
  rintro rfl
  cases h

theorem Holds.mem {m : Value} (h : side.Holds vs (some m)) : m ∈ vs := by
  cases h with
  | ofBest hmem _ _ => exact hmem

/-- A step keeps the extreme. The value that takes the place of another is one that what did not
replace the other does not replace either. -/
theorem Holds.take (hheld : side.Holds vs held) (hvs : ∀ w ∈ vs, w.isFloat = false)
    (hexact : v.isFloat = false) (h : side.take held v = .ok next) :
    side.Holds (vs ++ [v]) next := by
  have hmem : ∀ m, held = some m → m.isFloat = false := by
    rintro m rfl
    exact hvs m hheld.mem
  rcases take_cases hmem hexact h with ⟨rfl, rfl⟩ | ⟨horder, ⟨rfl, rfl⟩ | ⟨m, rfl, htype, rfl⟩⟩
  · cases hheld with
    | ofNulls hnulls =>
      refine .ofNulls fun w hw => ?_
      rcases List.mem_append.1 hw with hw | hw
      · exact hnulls w hw
      · exact List.mem_singleton.1 hw
    | ofBest hm horder hbest =>
      refine .ofBest (List.mem_append_left _ hm) horder fun w hw hnull => ?_
      rcases List.mem_append.1 hw with hw | hw
      · exact hbest w hw hnull
      · exact absurd (List.mem_singleton.1 hw) hnull
  · cases hheld with
    | ofNulls hnulls =>
      refine .ofBest (by simp) horder fun w hw hnull => ?_
      rcases List.mem_append.1 hw with hw | hw
      · exact absurd (hnulls w hw) hnull
      · obtain rfl := List.mem_singleton.1 hw
        exact ⟨rfl, Value.compare?_self_ne side.replaces_ne_eq⟩
  · cases hheld with
    | ofBest hm hmorder hbest =>
      by_cases hreplaces : v.compare? m = some side.replaces
      · rw [if_pos hreplaces]
        refine .ofBest (by simp) horder fun w hw hnull => ?_
        rcases List.mem_append.1 hw with hw | hw
        · obtain ⟨hwtype, hkept⟩ := hbest w hw hnull
          exact ⟨hwtype.trans htype, fun hw => hkept (Value.compare?_trans hw hreplaces)⟩
        · obtain rfl := List.mem_singleton.1 hw
          exact ⟨rfl, Value.compare?_self_ne side.replaces_ne_eq⟩
      · rw [if_neg hreplaces]
        refine .ofBest (List.mem_append_left _ hm) hmorder fun w hw hnull => ?_
        rcases List.mem_append.1 hw with hw | hw
        · exact hbest w hw hnull
        · obtain rfl := List.mem_singleton.1 hw
          exact ⟨htype.symm, hreplaces⟩

theorem Holds.eq_of_perm {vs' : List Value} {held' : Option Value} (h : side.Holds vs held)
    (h' : side.Holds vs' held') (hvs : ∀ w ∈ vs, w.isFloat = false) (hperm : vs.Perm vs') :
    held = held' := by
  cases h with
  | ofNulls hnulls =>
    cases h' with
    | ofNulls => rfl
    | ofBest hm horder _ =>
      exact absurd (hnulls _ (hperm.mem_iff.2 hm)) (ne_null_of_isOrderable horder)
  | @ofBest m hm horder hbest =>
    cases h' with
    | ofNulls hnulls => exact absurd (hnulls m (hperm.mem_iff.1 hm)) (ne_null_of_isOrderable horder)
    | @ofBest m' hm' horder' hbest' =>
      have hm'vs := hperm.mem_iff.2 hm'
      obtain ⟨htype, hkept⟩ := hbest m' hm'vs (ne_null_of_isOrderable horder')
      obtain ⟨-, hkept'⟩ := hbest' m (hperm.mem_iff.1 hm) (ne_null_of_isOrderable horder)
      rcases Value.eq_or_compare?_of_exact htype.symm (ne_null_of_isOrderable horder) (hvs m hm)
        (hvs m' hm'vs) with rfl | hlt | hgt
      · rfl
      · cases side with
        | least => exact absurd hlt hkept'
        | greatest => exact absurd (Value.compare?_swap hlt) hkept
      · cases side with
        | least => exact absurd (Value.compare?_swap hgt) hkept
        | greatest => exact absurd hgt hkept'

end Extreme

/-! ### All accumulators -/

namespace Accumulator

/-- The accumulator of a function after a list of exact values. There is none for averages, which
are not exact. -/
inductive Summarizes (vs : List Value) : AggregateFunction → Accumulator → Prop where
  | count : Summarizes vs .count (count (Int64.ofNat (vs.countP fun v => !v.isNull)))
  | sum {running : RunningSum} (h : running.Totals vs) : Summarizes vs .sum (sum running)
  | min {held : Option Value} (h : Extreme.least.Holds vs held) :
      Summarizes vs .min (extreme .least held)
  | max {held : Option Value} (h : Extreme.greatest.Holds vs held) :
      Summarizes vs .max (extreme .greatest held)

variable {function : AggregateFunction} {vs vs' : List Value} {acc acc' : Accumulator}

theorem foldAll_cons (acc : Accumulator) (v : Value) (vs : List Value) :
    acc.foldAll (v :: vs) = acc.take v >>= fun next => next.foldAll vs :=
  List.foldlM_cons

theorem summarizes_start (hfunction : function ≠ .avg) :
    Summarizes [] function (start function) := by
  have hnulls : ∀ v ∈ ([] : List Value), v = .null := by simp
  cases function with
  | count => exact .count
  | sum => exact .sum (.empty rfl)
  | avg => exact absurd rfl hfunction
  | min => exact .min (.ofNulls hnulls)
  | max => exact .max (.ofNulls hnulls)

theorem Summarizes.take {v : Value} (hacc : acc.Summarizes vs function)
    (hvs : ∀ w ∈ vs, w.isFloat = false) (hexact : v.isFloat = false) (h : acc.take v = .ok acc') :
    acc'.Summarizes (vs ++ [v]) function := by
  cases hacc with
  | count =>
    cases h
    have hcount : Int64.ofNat ((vs ++ [v]).countP fun v => !v.isNull) =
        if v.isNull then Int64.ofNat (vs.countP fun v => !v.isNull)
        else Int64.ofNat (vs.countP fun v => !v.isNull) + 1 := by
      rw [List.countP_append, List.countP_singleton]
      cases v.isNull
      · exact Int64.ofNat_add _ 1
      · rfl
    exact hcount ▸ .count
  | sum hrunning =>
    rw [take_sum] at h
    obtain ⟨next, hnext, rfl⟩ := map_eq_ok_iff.1 h
    exact .sum (hrunning.add hexact hnext)
  | min hheld =>
    rw [take_extreme] at h
    obtain ⟨next, hnext, rfl⟩ := map_eq_ok_iff.1 h
    exact .min (hheld.take hvs hexact hnext)
  | max hheld =>
    rw [take_extreme] at h
    obtain ⟨next, hnext, rfl⟩ := map_eq_ok_iff.1 h
    exact .max (hheld.take hvs hexact hnext)

theorem Summarizes.foldAll (hacc : acc.Summarizes vs function)
    (hexact : ∀ w ∈ vs ++ vs', w.isFloat = false) (h : acc.foldAll vs' = .ok acc') :
    acc'.Summarizes (vs ++ vs') function := by
  induction vs' generalizing vs acc with
  | nil =>
    cases h
    rwa [List.append_nil]
  | cons v rest ih =>
    rw [foldAll_cons] at h
    obtain ⟨next, hnext, h⟩ := bind_eq_ok_iff.1 h
    have hstep := hacc.take (fun w hw => hexact w (List.mem_append_left _ hw))
      (hexact v (by simp)) hnext
    have hrest := ih hstep (by simpa using hexact) h
    rwa [List.append_assoc] at hrest

theorem summarizes_of_foldAll (hfunction : function ≠ .avg) (hexact : ∀ w ∈ vs, w.isFloat = false)
    (h : (start function).foldAll vs = .ok acc) : acc.Summarizes vs function :=
  (summarizes_start hfunction).foldAll hexact h

theorem Summarizes.eq_of_perm (h : acc.Summarizes vs function) (h' : acc'.Summarizes vs' function)
    (hexact : ∀ w ∈ vs, w.isFloat = false) (hperm : vs.Perm vs') : acc = acc' := by
  cases h with
  | count =>
    cases h'
    rw [hperm.countP_eq]
  | sum hrunning =>
    cases h' with
    | sum hrunning' => rw [hrunning.eq_of_perm hrunning' hperm]
  | min hheld =>
    cases h' with
    | min hheld' => rw [hheld.eq_of_perm hheld' hexact hperm]
  | max hheld =>
    cases h' with
    | max hheld' => rw [hheld.eq_of_perm hheld' hexact hperm]

/-- A sum that succeeds took every value, so each is a null or an integer. -/
theorem null_or_int64_of_foldAll_sum (hexact : ∀ w ∈ vs, w.isFloat = false)
    (h : (start .sum).foldAll vs = .ok acc) {v : Value} (hv : v ∈ vs) :
    v = .null ∨ ∃ n, v = .int64 n := by
  obtain ⟨before, after, middle, next, rfl, hbefore, hstep⟩ := exists_step_of_foldlM h hv
  have hmiddle := summarizes_of_foldAll (by decide)
    (fun w hw => hexact w (List.mem_append_left _ hw)) hbefore
  cases hmiddle with
  | sum =>
    rw [take_sum] at hstep
    obtain ⟨_, hadd, -⟩ := map_eq_ok_iff.1 hstep
    exact RunningSum.null_or_int64_of_add (hexact v hv) hadd

/-! ### Reordered values -/

/-- The sum of the values does not get past an integer, because the total with it is too large. -/
inductive SumOverflows (vs : List Value) : String → Prop where
  | intro {before after : List Value} {total next : Int64}
      (hvs : vs = before ++ .int64 next :: after)
      (htotal : (start .sum).foldAll before = .ok (sum (.int total)))
      (hlarge : checked (total.toInt + next.toInt) = none) :
      SumOverflows vs ("SUM " ++ intText total.toInt ++ " + " ++ intText next.toInt)

/-- An extreme that is held of some of the values can take any of them. -/
theorem exists_take_extreme {side : Extreme} {held held' : Option Value} {before : List Value}
    {v : Value} (h : side.Holds vs held) (h' : side.Holds before held')
    (hbefore : ∀ w ∈ before, w ∈ vs) (hv : v ∈ vs) :
    ∃ next, side.take held' v = .ok next := by
  cases h with
  | ofNulls hnulls =>
    exact Extreme.exists_take (fun hnull => absurd (hnulls v hv) hnull)
      fun hnull => absurd (hnulls v hv) hnull
  | ofBest hm horder hbest =>
    refine Extreme.exists_take (fun hnull => (hbest v hv hnull).1 ▸ horder) ?_
    rintro hnull m' rfl
    cases h' with
    | ofBest hm' horder' _ =>
      have htype := (hbest m' (hbefore m' hm') (Extreme.ne_null_of_isOrderable horder')).1
      exact htype.trans (hbest v hv hnull).1.symm

/-- Reordered exact values are folded alike. A fold that succeeds on one order gives the same
accumulator on any other, unless it is a sum that is too large after some of the values. -/
theorem foldAll_perm (hfunction : function ≠ .avg) (hexact : ∀ w ∈ vs, w.isFloat = false)
    (hperm : vs.Perm vs') (h : (start function).foldAll vs = .ok acc) :
    (start function).foldAll vs' = .ok acc ∨
      ∃ text, (start function).foldAll vs' = .error (.overflow text) ∧ function = .sum ∧
        SumOverflows vs' text := by
  have hacc := summarizes_of_foldAll hfunction hexact h
  have hexact' : ∀ w ∈ vs', w.isFloat = false := fun w hw => hexact w (hperm.mem_iff.2 hw)
  cases hfold : (start function).foldAll vs' with
  | ok acc' =>
    have hacc' := summarizes_of_foldAll hfunction hexact' hfold
    rw [hacc.eq_of_perm hacc' hexact hperm]
    exact .inl rfl
  | error e =>
    obtain ⟨before, v, after, middle, rfl, hbefore, hv⟩ := foldlM_eq_error_iff.1 hfold
    have hmem : v ∈ vs := hperm.mem_iff.2 (by simp)
    have hsub : ∀ w ∈ before, w ∈ vs := fun w hw => hperm.mem_iff.2 (List.mem_append_left _ hw)
    have hmiddle := summarizes_of_foldAll hfunction (fun w hw => hexact w (hsub w hw)) hbefore
    cases hmiddle with
    | count => cases hv
    | sum hrunning =>
      rw [take_sum] at hv
      have hvalue := null_or_int64_of_foldAll_sum hexact h hmem
      obtain ⟨total, next, rfl, rfl, hlarge, rfl⟩ :=
        hrunning.add_eq_error hvalue (map_eq_error_iff.1 hv)
      exact .inr ⟨_, rfl, rfl, .intro rfl hbefore hlarge⟩
    | min hheld =>
      cases hacc with
      | min hbest =>
        rw [take_extreme] at hv
        obtain ⟨next, hnext⟩ := exists_take_extreme hbest hheld hsub hmem
        cases hnext.symm.trans (map_eq_error_iff.1 hv)
    | max hheld =>
      cases hacc with
      | max hbest =>
        rw [take_extreme] at hv
        obtain ⟨next, hnext⟩ := exists_take_extreme hbest hheld hsub hmem
        cases hnext.symm.trans (map_eq_error_iff.1 hv)

end Accumulator

end Columnar
