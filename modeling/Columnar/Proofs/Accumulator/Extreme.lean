import Columnar.Proofs.Accumulator
import Columnar.Proofs.Value.Equality

/-!
# Least and greatest of any values

What an extreme holds after a list of values of any types, nulls left out, is one of them brought to
the type they share, or to that of wide floats where numbers are mixed; none of the others, brought
there, takes its place; and it is an invalid number exactly when the list begins with one
(`Extreme.Tracks`). Promotion may happen at any value. It does no harm because it keeps the order of
the values seen before. What the order of the list decides is then a single thing, whether an
invalid number comes first.
-/

namespace Columnar

def Value.nonNulls (vs : List Value) : List Value := vs.filter fun v => !v.isNull

theorem Value.mem_nonNulls {v : Value} {vs : List Value} :
    v ∈ nonNulls vs ↔ v ∈ vs ∧ v ≠ null := by
  simp [nonNulls, ← Bool.not_eq_true]

/-- A fold that nulls leave as it is does not see them. -/
theorem Value.foldlM_nonNulls {σ : Type} {step : σ → Value → Except EvalError σ}
    (hnull : ∀ s, step s null = .ok s) (s : σ) (vs : List Value) :
    (nonNulls vs).foldlM step s = vs.foldlM step s := by
  induction vs generalizing s with
  | nil => rfl
  | cons v rest ih =>
    by_cases hv : v = null
    · subst hv
      rw [List.foldlM_cons, hnull]
      exact ih s
    · have hkeep : nonNulls (v :: rest) = v :: nonNulls rest :=
        List.filter_cons_of_pos (by simp [Bool.eq_false_iff.2 (mt isNull_iff.1 hv)])
      rw [hkeep, List.foldlM_cons, List.foldlM_cons]
      exact congrArg _ (funext ih)

namespace Extreme

variable {side : Extreme} {vs vs' : List Value} {m m' v : Value} {s t : DataType}
  {held held' : Option Value}

/-! ### The type that is held -/

/-- The type of an extreme of values: the one they share, or that of wide floats for numbers of
different types. -/
inductive CommonType (vs : List Value) : DataType → Prop where
  | same {t : DataType} (h : ∀ v ∈ vs, v.dataType = t) : CommonType vs t
  | mixed {v w : Value} (hv : v ∈ vs) (hw : w ∈ vs) (hne : v.dataType ≠ w.dataType)
      (hnumeric : ∀ v ∈ vs, v.dataType.isNumeric = true) : CommonType vs .float64

theorem CommonType.promotesTo (h : CommonType vs t) (hv : v ∈ vs) : v.dataType.PromotesTo t := by
  cases h with
  | same h => exact .inl (h v hv)
  | mixed _ _ _ hnumeric => exact .inr ⟨hnumeric v hv, rfl⟩

theorem CommonType.append (h : CommonType vs t) (hne : vs ≠ []) (hv : t.Alike v.dataType) :
    CommonType (vs ++ [v]) (t.common v.dataType) := by
  obtain ⟨w, hw⟩ := List.exists_mem_of_ne_nil vs hne
  have hmem : ∀ {u}, u ∈ vs → u ∈ vs ++ [v] := List.mem_append_left _
  have hnumeric : (∀ u ∈ vs, u.dataType.isNumeric = true) → v.dataType.isNumeric = true →
      ∀ u ∈ vs ++ [v], u.dataType.isNumeric = true := fun hvs hlast =>
    List.forall_mem_append.2 ⟨hvs, by simpa using hlast⟩
  by_cases htype : t = v.dataType
  · rw [DataType.common, if_pos htype]
    cases h with
    | same h => exact .same (List.forall_mem_append.2 ⟨h, by simpa using htype.symm⟩)
    | mixed hu hw hne hvs => exact .mixed (hmem hu) (hmem hw) hne (hnumeric hvs (htype ▸ rfl))
  · obtain ⟨ht, hlast⟩ := hv.resolve_left htype
    rw [DataType.common, if_neg htype]
    cases h with
    | same h =>
      refine .mixed (hmem hw) (List.mem_append_right vs List.mem_cons_self) ?_
        (hnumeric (fun u hu => (h u hu).symm ▸ ht) hlast)
      rwa [h w hw]
    | mixed hu hw hne hvs => exact .mixed (hmem hu) (hmem hw) hne (hnumeric hvs hlast)

theorem CommonType.eq_of_perm (h : CommonType vs t) (h' : CommonType vs' s) (hperm : vs.Perm vs')
    (hne : vs ≠ []) : t = s := by
  obtain ⟨w, hw⟩ := List.exists_mem_of_ne_nil vs hne
  cases h with
  | same h =>
    cases h' with
    | same h' => exact (h w hw).symm.trans (h' w (hperm.mem_iff.1 hw))
    | mixed hu hv hne _ =>
      exact absurd ((h _ (hperm.mem_iff.2 hu)).trans (h _ (hperm.mem_iff.2 hv)).symm) hne
  | mixed hu hv hne _ =>
    cases h' with
    | same h' =>
      exact absurd ((h' _ (hperm.mem_iff.1 hu)).trans (h' _ (hperm.mem_iff.1 hv)).symm) hne
    | mixed => rfl

/-! ### The value that is held -/

/-- What an extreme holds after values of which none is a null. -/
structure Tracks (side : Extreme) (vs : List Value) (m : Value) : Prop where
  isOrderable : m.dataType.isOrderable = true
  commonType : CommonType vs m.dataType
  mem : ∃ w ∈ vs, m = w.promoteTo m.dataType
  kept : ∀ v ∈ vs, (v.promoteTo m.dataType).compare? m ≠ some side.replaces
  isNaN : m.isNaN = vs.head?.any Value.isNaN

theorem Tracks.ne_nil (h : side.Tracks vs m) : vs ≠ [] := by
  obtain ⟨w, hw, -⟩ := h.mem
  exact List.ne_nil_of_mem hw

theorem tracks_singleton (h : v.dataType.isOrderable = true) : side.Tracks [v] v where
  isOrderable := h
  commonType := .same (by simp)
  mem := ⟨v, List.mem_cons_self, (Value.promoteTo_of_dataType_eq rfl).symm⟩
  kept := by
    intro w hw
    obtain rfl := List.mem_singleton.1 hw
    rw [Value.promoteTo_of_dataType_eq rfl]
    exact Value.compare?_self_ne side.replaces_ne_eq
  isNaN := rfl

theorem choose_of_alike (h : m.dataType.Alike v.dataType) :
    side.choose m v =
      if (v.promoteTo (m.dataType.common v.dataType)).compare?
          (m.promoteTo (m.dataType.common v.dataType)) = some side.replaces
      then v.promoteTo (m.dataType.common v.dataType)
      else m.promoteTo (m.dataType.common v.dataType) := by
  rw [choose, Value.promote_of_alike h]

/-- The values before it are compared with the one held as they were, whatever type all of them are
now brought to. -/
theorem Tracks.choose (h : side.Tracks vs m) (hv : m.dataType.Alike v.dataType) :
    side.Tracks (vs ++ [v]) (side.choose m v) := by
  have hcommon := h.commonType.append h.ne_nil hv
  have hm := hv.promotesTo_common
  have hlast := hv.symm.promotesTo_common
  rw [DataType.common_comm] at hlast
  rw [choose_of_alike hv]
  generalize m.dataType.common v.dataType = t at hcommon hm hlast
  have horder : t.isOrderable = true := hm.alike.symm.isOrderable h.isOrderable
  have hkept : ∀ w ∈ vs, (w.promoteTo t).compare? (m.promoteTo t) ≠ some side.replaces := by
    intro w hw hreplaces
    have hwm := h.commonType.promotesTo hw
    have hsame : (w.promoteTo m.dataType).dataType = m.dataType := Value.dataType_promoteTo hwm
    rw [← Value.promoteTo_promoteTo hwm hm] at hreplaces
    refine h.kept w hw (Value.compare?_of_promoteTo hsame ?_ ?_ side.replaces_ne_eq hreplaces)
    · exact ne_null_of_isOrderable (by rw [hsame, h.isOrderable])
    · rw [hsame]
      exact hm
  have hhead : (vs ++ [v]).head?.any Value.isNaN = vs.head?.any Value.isNaN := by
    rw [List.head?_append_of_ne_nil _ h.ne_nil]
  split
  · next hreplaces =>
    obtain ⟨hvalid, hmvalid⟩ := Value.isNaN_of_compare? hreplaces
    rw [Value.isNaN_promoteTo hm] at hmvalid
    have htype := Value.dataType_promoteTo hlast
    refine ⟨htype.symm ▸ horder, htype.symm ▸ hcommon, ⟨v, by simp, by rw [htype]⟩, ?_, ?_⟩
    · rw [htype]
      refine List.forall_mem_append.2 ⟨fun w hw hw' => ?_, ?_⟩
      · exact hkept w hw (Value.compare?_trans hw' hreplaces)
      · simpa using Value.compare?_self_ne side.replaces_ne_eq
    · rw [hhead, hvalid, ← h.isNaN, hmvalid]
  · next hstays =>
    have htype := Value.dataType_promoteTo hm
    obtain ⟨w, hw, hmw⟩ := h.mem
    refine ⟨htype.symm ▸ horder, htype.symm ▸ hcommon, ⟨w, by simp [hw], ?_⟩, ?_, ?_⟩
    · rw [htype, ← Value.promoteTo_promoteTo (h.commonType.promotesTo hw) hm, ← hmw]
    · rw [htype]
      exact List.forall_mem_append.2 ⟨hkept, by simpa using hstays⟩
    · rw [hhead, Value.isNaN_promoteTo hm, h.isNaN]

/-! ### Folding -/

theorem take_eq_ok_iff (hnull : v ≠ .null) :
    side.take held v = .ok held' ↔ v.dataType.isOrderable = true ∧
      (∀ m, held = some m → m.dataType.Alike v.dataType) ∧
      held' = some (held.elim v fun m => side.choose m v) := by
  rw [take_eq, if_neg (mt Value.isNull_iff.1 hnull)]
  cases horder : v.dataType.isOrderable with
  | false => simp
  | true =>
    cases held with
    | none => exact ⟨fun h => ⟨rfl, by simp, (Except.ok.inj h).symm⟩, fun h => h.2.2 ▸ rfl⟩
    | some m =>
      have htest : (decide (m.dataType = v.dataType) ||
          (m.dataType.isNumeric && v.dataType.isNumeric)) = true ↔
            m.dataType.Alike v.dataType := by
        simp [DataType.Alike]
      rw [if_neg (by decide)]
      dsimp only
      by_cases halike : m.dataType.Alike v.dataType
      · rw [if_pos (htest.2 halike)]
        refine ⟨fun h => ⟨rfl, ?_, (Except.ok.inj h).symm⟩, fun h => h.2.2 ▸ rfl⟩
        rintro _ ⟨⟩
        exact halike
      · rw [if_neg (mt htest.1 halike)]
        refine ⟨fun h => ?_, fun h => absurd (h.2.1 m rfl) halike⟩
        cases h

/-- What may be held after values of which none is a null. -/
def Holding (side : Extreme) (vs : List Value) : Option Value → Prop
  | none => vs = []
  | some m => side.Tracks vs m

theorem Holding.take (h : side.Holding vs held) (hnull : v ≠ .null)
    (hfold : side.take held v = .ok held') : side.Holding (vs ++ [v]) held' := by
  obtain ⟨horder, halike, rfl⟩ := (take_eq_ok_iff hnull).1 hfold
  cases held with
  | none =>
    obtain rfl : vs = [] := h
    exact tracks_singleton horder
  | some m => exact Tracks.choose h (halike m rfl)

theorem Holding.foldlM (h : side.Holding vs held) (hnull : ∀ v ∈ vs', v ≠ .null)
    (hfold : vs'.foldlM side.take held = .ok held') : side.Holding (vs ++ vs') held' := by
  induction vs' generalizing vs held with
  | nil =>
    cases hfold
    rwa [List.append_nil]
  | cons v rest ih =>
    obtain ⟨hv, hrest⟩ := List.forall_mem_cons.1 hnull
    rw [List.foldlM_cons] at hfold
    obtain ⟨next, hnext, hfold⟩ := bind_eq_ok_iff.1 hfold
    have hafter := ih (h.take hv hnext) hrest hfold
    rwa [List.append_assoc] at hafter

theorem holding_of_foldlM (hnull : ∀ v ∈ vs, v ≠ .null)
    (hfold : vs.foldlM side.take none = .ok held) : side.Holding vs held := by
  have hstart : side.Holding [] none := rfl
  exact hstart.foldlM hnull hfold

def Comparable (vs : List Value) : Prop :=
  ∀ v ∈ vs, v.dataType.isOrderable = true ∧ ∀ w ∈ vs, v.dataType.Alike w.dataType

theorem Tracks.comparable (h : side.Tracks vs m) : Comparable vs := by
  have halike : ∀ v ∈ vs, v.dataType.Alike m.dataType :=
    fun v hv => (h.commonType.promotesTo hv).alike
  exact fun v hv => ⟨(halike v hv).isOrderable h.isOrderable,
    fun w hw => (halike v hv).trans (halike w hw).symm⟩

/-- Which values can be taken does not depend on their order: each has to go with every other. -/
theorem exists_foldlM_iff (hnull : ∀ v ∈ vs, v ≠ .null) :
    (∃ held, vs.foldlM side.take none = .ok held) ↔ Comparable vs := by
  constructor
  · intro hfold
    obtain ⟨held, hfold⟩ := hfold
    have hholds := holding_of_foldlM hnull hfold
    cases held with
    | none =>
      obtain rfl : vs = [] := hholds
      simp [Comparable]
    | some m => exact Tracks.comparable hholds
  · intro hcomparable
    cases hfold : vs.foldlM side.take none with
    | ok held => exact ⟨held, rfl⟩
    | error e =>
      obtain ⟨before, v, after, held, rfl, hbefore, hv⟩ := foldlM_eq_error_iff.1 hfold
      have hmem : v ∈ before ++ v :: after := by simp
      have hholds := holding_of_foldlM (fun w hw => hnull w (List.mem_append_left _ hw)) hbefore
      have halike : ∀ m, held = some m → m.dataType.Alike v.dataType := by
        rintro m rfl
        have htracks : side.Tracks before m := hholds
        obtain ⟨w, hw, -⟩ := htracks.mem
        exact (htracks.commonType.promotesTo hw).alike.symm.trans
          ((hcomparable w (List.mem_append_left _ hw)).2 v hmem)
      have hok : side.take held v = .ok _ :=
        (take_eq_ok_iff (hnull v hmem)).2 ⟨(hcomparable v hmem).1, halike, rfl⟩
      cases hok.symm.trans hv

theorem exists_foldlM_error (side : Extreme) (hnull : ∀ v ∈ vs, v ≠ .null)
    (h : ¬ Comparable vs) : ∃ e, vs.foldlM side.take none = .error e := by
  cases hfold : vs.foldlM side.take none with
  | ok held => exact absurd ((exists_foldlM_iff hnull).1 ⟨held, hfold⟩) h
  | error e => exact ⟨e, rfl⟩

theorem foldlM_nonNulls (held : Option Value) (vs : List Value) :
    (Value.nonNulls vs).foldlM side.take held = vs.foldlM side.take held :=
  Value.foldlM_nonNulls (fun _ => rfl) held vs

theorem ne_null_of_mem_nonNulls : ∀ v ∈ Value.nonNulls vs, v ≠ .null :=
  fun _ hv => (Value.mem_nonNulls.1 hv).2

/-! ### Another order -/

/-- Extremes of the same values in two orders are of one type. They are equal, unless just one of
the orders begins with an invalid number. -/
theorem Tracks.same_iff_of_perm (h : side.Tracks vs m) (h' : side.Tracks vs' m')
    (hperm : vs.Perm vs') :
    m.dataType = m'.dataType ∧
      (m.Same m' ↔ vs.head?.any Value.isNaN = vs'.head?.any Value.isNaN) := by
  have htype := h.commonType.eq_of_perm h'.commonType hperm h.ne_nil
  refine ⟨htype, fun hsame => ?_, fun hheads => ?_⟩
  · rw [← h.isNaN, ← h'.isNaN, hsame.isNaN_eq]
  · rw [← h.isNaN, ← h'.isNaN] at hheads
    cases hm : m.isNaN with
    | true => exact .inr ⟨hm, hheads ▸ hm⟩
    | false =>
      obtain ⟨o, ho⟩ := Value.exists_compare? htype (ne_null_of_isOrderable h.isOrderable) hm
        (hheads ▸ hm)
      -- Neither is replaced by the other, as each is one of the values.
      have hkept : m'.compare? m ≠ some side.replaces := by
        obtain ⟨w, hw, hm'⟩ := h'.mem
        rw [hm', ← htype]
        exact h.kept w (hperm.mem_iff.2 hw)
      have hkept' : m.compare? m' ≠ some side.replaces := by
        obtain ⟨w, hw, hm⟩ := h.mem
        rw [hm, htype]
        exact h'.kept w (hperm.mem_iff.1 hw)
      have hswap := Value.compare?_swap ho
      rw [hswap] at hkept
      rw [ho] at hkept'
      have heq : o = .eq := by cases side <;> cases o <;> simp_all [replaces]
      exact .inl (Value.equal_of_compare? (heq ▸ ho))

/-! ### Bounds -/

/-- The comparison that an extreme stands in to every value. -/
def bound : Extreme → ComparisonOp
  | least => .lte
  | greatest => .gte

variable (hvalid : ∀ v ∈ vs, v.isNaN = false)
include hvalid

theorem Tracks.isNaN_eq_false (h : side.Tracks vs m) : m.isNaN = false := by
  obtain ⟨w, hw, hm⟩ := h.mem
  rw [hm, Value.isNaN_promoteTo (h.commonType.promotesTo hw), hvalid w hw]

/-- The value held, compared with one of the values. -/
theorem Tracks.exists_comparison (h : side.Tracks vs m) (hv : v ∈ vs) :
    ∃ o, (v.promoteTo m.dataType).compare? m = some o ∧
      ∀ op : ComparisonOp,
        (BinaryOp.comparison op).apply m v = .ok (.bool (op.holds (some o.swap))) := by
  have hpromotes := h.commonType.promotesTo hv
  have htype := Value.dataType_promoteTo hpromotes
  obtain ⟨o, ho⟩ := Value.exists_compare? htype
    (ne_null_of_isOrderable (by rw [htype, h.isOrderable]))
    (by rw [Value.isNaN_promoteTo hpromotes, hvalid v hv]) (h.isNaN_eq_false hvalid)
  refine ⟨o, ho, fun op => ?_⟩
  rw [BinaryOp.apply_comparison_of_alike op (ne_null_of_isOrderable h.isOrderable)
      (ne_null_of_isOrderable (hpromotes.alike.isOrderable h.isOrderable)) hpromotes.alike.symm,
    hpromotes.common_eq, Value.promoteTo_of_dataType_eq rfl, Value.compare?_swap ho]

theorem Tracks.apply_bound (h : side.Tracks vs m) (hv : v ∈ vs) :
    (BinaryOp.comparison side.bound).apply m v = .ok (.bool true) := by
  obtain ⟨o, ho, happly⟩ := h.exists_comparison hvalid hv
  have hkept := h.kept v hv
  rw [ho] at hkept
  rw [happly]
  cases side <;> cases o <;> first | rfl | exact absurd rfl hkept

theorem Tracks.exists_apply_eq (h : side.Tracks vs m) :
    ∃ v ∈ vs, (BinaryOp.comparison .eq).apply m v = .ok (.bool true) := by
  obtain ⟨w, hw, hm⟩ := h.mem
  obtain ⟨o, ho, happly⟩ := h.exists_comparison hvalid hw
  rw [← hm] at ho
  have heq : o = .eq := by
    by_contra hne
    exact Value.compare?_self_ne hne ho
  exact ⟨w, hw, by rw [happly, heq]; rfl⟩

omit hvalid

def function : Extreme → AggregateFunction
  | least => .min
  | greatest => .max

end Extreme

def Value.beginsNaN (vs : List Value) : Bool := (nonNulls vs).head?.any isNaN

namespace Accumulator

variable {vs vs' : List Value}

/-- An accumulator that only wraps a state folds as the state does. -/
theorem foldAll_eq_map {σ : Type} {wrap : σ → Accumulator} {step : σ → Value → Except EvalError σ}
    (hstep : ∀ s v, (wrap s).take v = (step s v).map wrap) (s : σ) (vs : List Value) :
    (wrap s).foldAll vs = (vs.foldlM step s).map wrap := by
  induction vs generalizing s with
  | nil => rfl
  | cons v rest ih =>
    rw [foldAll_cons, List.foldlM_cons, hstep]
    cases step s v with
    | error e => rfl
    | ok next => exact ih next

theorem foldAll_extreme (side : Extreme) (held : Option Value) (vs : List Value) :
    (extreme side held).foldAll vs = (vs.foldlM side.take held).map (extreme side) :=
  foldAll_eq_map (take_extreme side) held vs

theorem foldAll_start_function (side : Extreme) (vs : List Value) :
    (start side.function).foldAll vs =
      ((Value.nonNulls vs).foldlM side.take none).map (extreme side) := by
  rw [Extreme.foldlM_nonNulls, ← foldAll_extreme]
  cases side <;> rfl

/-- Of two orders of the same values either both are refused, or the results are of one type. They
are equal, invalid numbers among themselves, unless one order begins with an invalid number and the
other does not. -/
theorem foldAll_extreme_perm (side : Extreme) (hperm : vs.Perm vs') :
    (∃ e e', (start side.function).foldAll vs = .error e ∧
      (start side.function).foldAll vs' = .error e') ∨
    ∃ acc acc', (start side.function).foldAll vs = .ok acc ∧
      (start side.function).foldAll vs' = .ok acc' ∧
      acc.result.dataType = acc'.result.dataType ∧
      (acc.result.Same acc'.result ↔ Value.beginsNaN vs = Value.beginsNaN vs') := by
  have hpresent : (Value.nonNulls vs).Perm (Value.nonNulls vs') := hperm.filter _
  have hcomparable : Extreme.Comparable (Value.nonNulls vs) ↔
      Extreme.Comparable (Value.nonNulls vs') := by
    simp only [Extreme.Comparable, hpresent.mem_iff]
  simp only [foldAll_start_function, Value.beginsNaN]
  by_cases hboth : Extreme.Comparable (Value.nonNulls vs)
  · obtain ⟨held, hfold⟩ := (Extreme.exists_foldlM_iff Extreme.ne_null_of_mem_nonNulls).2 hboth
    obtain ⟨held', hfold'⟩ := (Extreme.exists_foldlM_iff Extreme.ne_null_of_mem_nonNulls).2
      (hcomparable.1 hboth)
    have hholds := Extreme.holding_of_foldlM Extreme.ne_null_of_mem_nonNulls hfold
    have hholds' := Extreme.holding_of_foldlM Extreme.ne_null_of_mem_nonNulls hfold'
    refine .inr ⟨extreme side held, extreme side held', by rw [hfold]; rfl, by rw [hfold']; rfl, ?_⟩
    generalize Value.nonNulls vs = ws, Value.nonNulls vs' = ws' at *
    cases held with
    | none =>
      obtain rfl : ws = [] := hholds
      obtain rfl := hpresent.nil_eq
      cases hfold'
      exact ⟨rfl, iff_of_true (.inl rfl) rfl⟩
    | some m =>
      cases held' with
      | none =>
        obtain rfl : ws' = [] := hholds'
        exact absurd hpresent.eq_nil (Extreme.Tracks.ne_nil hholds)
      | some m' => exact Extreme.Tracks.same_iff_of_perm hholds hholds' hpresent
  · obtain ⟨e, he⟩ := Extreme.exists_foldlM_error side Extreme.ne_null_of_mem_nonNulls hboth
    obtain ⟨e', he'⟩ := Extreme.exists_foldlM_error side Extreme.ne_null_of_mem_nonNulls
      (mt hcomparable.2 hboth)
    exact .inl ⟨e, e', by rw [he]; rfl, by rw [he']; rfl⟩

/-- Numbers of all types, an invalid one among them that comes first in neither direction. -/
def mixedNumbers : List Value := [.float64 (.ofInt 2), .null, .float32 .nan, .int64 1]

theorem foldAll_extreme_perm_mixedNumbers :
    mixedNumbers.Perm mixedNumbers.reverse ∧
      ∃ acc acc', (start .min).foldAll mixedNumbers = .ok acc ∧
        (start .min).foldAll mixedNumbers.reverse = .ok acc' ∧
        acc.result.dataType = acc'.result.dataType ∧ acc.result.Same acc'.result := by
  have hperm : mixedNumbers.Perm mixedNumbers.reverse := mixedNumbers.reverse_perm.symm
  rcases foldAll_extreme_perm .least hperm with ⟨e, -, he, -⟩ | ⟨acc, acc', h, h', htype, hsame⟩
  · cases he
  · exact ⟨hperm, acc, acc', h, h', htype, hsame.2 rfl⟩

/-- An invalid number that comes first is the least of all values, and elsewhere it is not. -/
theorem min_invalidFirst_ne_min_invalidLast :
    [Value.float64 .nan, .float64 (.ofInt 1)].Perm [.float64 (.ofInt 1), .float64 .nan] ∧
      (start .min).foldAll [.float64 .nan, .float64 (.ofInt 1)] =
        .ok (extreme .least (some (.float64 .nan))) ∧
      (start .min).foldAll [.float64 (.ofInt 1), .float64 .nan] =
        .ok (extreme .least (some (.float64 (.ofInt 1)))) ∧
      ¬ (Value.float64 .nan).Same (.float64 (.ofInt 1)) := by
  refine ⟨List.Perm.swap _ _ _, rfl, rfl, fun hsame => ?_⟩
  cases hsame.isNaN_eq

/-- Least and greatest are bounds that are attained. Without invalid numbers the result is a null
only for nulls, and otherwise the comparison operators find no value on its other side and one that
is equal to it. -/
theorem foldAll_extreme_bounds (side : Extreme) {acc : Accumulator}
    (hvalid : ∀ v ∈ vs, v.isNaN = false) (h : (start side.function).foldAll vs = .ok acc) :
    (acc.result = .null ↔ ∀ v ∈ vs, v = .null) ∧
      (acc.result ≠ .null →
        (∀ v ∈ vs, v ≠ .null →
          (BinaryOp.comparison side.bound).apply acc.result v = .ok (.bool true)) ∧
        ∃ v ∈ vs, v ≠ .null ∧
          (BinaryOp.comparison .eq).apply acc.result v = .ok (.bool true)) := by
  rw [foldAll_start_function] at h
  obtain ⟨held, hfold, rfl⟩ := map_eq_ok_iff.1 h
  have hholds := Extreme.holding_of_foldlM Extreme.ne_null_of_mem_nonNulls hfold
  cases held with
  | none =>
    have hnil : Value.nonNulls vs = [] := hholds
    refine ⟨iff_of_true rfl fun v hv => ?_, fun hne => absurd rfl hne⟩
    by_contra hnull
    exact List.not_mem_nil (hnil ▸ Value.mem_nonNulls.2 ⟨hv, hnull⟩)
  | some m =>
    have htracks : side.Tracks (Value.nonNulls vs) m := hholds
    have hpresent : ∀ v ∈ Value.nonNulls vs, v.isNaN = false :=
      fun v hv => hvalid v (Value.mem_nonNulls.1 hv).1
    have hm := Extreme.ne_null_of_isOrderable htracks.isOrderable
    obtain ⟨w, hw, heq⟩ := htracks.exists_apply_eq hpresent
    obtain ⟨hwvs, hwnull⟩ := Value.mem_nonNulls.1 hw
    refine ⟨iff_of_false hm fun hnulls => hwnull (hnulls w hwvs),
      fun _ => ⟨fun v hv hnull => ?_, ?_⟩⟩
    · exact htracks.apply_bound hpresent (Value.mem_nonNulls.2 ⟨hv, hnull⟩)
    · exact ⟨w, hwvs, hwnull, heq⟩

/-- An integer that no wide float is equal to, its nearest float, and a smaller narrow one. -/
def numbersBeyondFloats : List Value :=
  [.int64 9007199254740993, .null, .float64 (.ofInt 9007199254740992), .float32 (.ofInt 3)]

theorem foldAll_extreme_bounds_numbersBeyondFloats :
    (∀ v ∈ numbersBeyondFloats, v.isNaN = false) ∧
      (start .max).foldAll numbersBeyondFloats =
        .ok (extreme .greatest (some (.float64 (.ofInt 9007199254740992)))) ∧
      ∀ v ∈ numbersBeyondFloats, v ≠ .null →
        (BinaryOp.comparison .gte).apply (.float64 (.ofInt 9007199254740992)) v =
          .ok (.bool true) := by
  have hvalid : ∀ v ∈ numbersBeyondFloats, v.isNaN = false := by decide
  have hfold : (start .max).foldAll numbersBeyondFloats =
      .ok (extreme .greatest (some (.float64 (.ofInt 9007199254740992)))) := by decide +kernel
  have hbounds := (foldAll_extreme_bounds .greatest hvalid hfold).2 (by decide)
  exact ⟨hvalid, hfold, hbounds.1⟩

end Accumulator

end Columnar
