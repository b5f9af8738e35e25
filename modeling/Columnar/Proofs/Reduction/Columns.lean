import Columnar.Proofs.Batch.RoundTrip
import Columnar.Proofs.Reduction.Aliases

/-!
# The columns of a result

A result has one column for each expression, named by its identity. The type of the column comes
from one of two places: a column that is passed through keeps the type that the batch declares, and
a computed one takes the type of its value. In both cases the value fits, the first because the
batch's own values fit their columns, so a result can be written out and read back.
-/

namespace Columnar

/-- Every value at a logical row is a null or of the type of its column. -/
def Batch.WellTyped (b : Batch) : Prop :=
  ∀ column row c v, b.columns[column]? = some c → b.value? row column = some v → c.Admits v

variable {b : Batch} {fields : List String} {nodes : List Node}

/-! ### One expression -/

theorem Node.name_of_output {n : Node} {slot : Slot} {output : Column × Value}
    (h : n.output b slot = .ok output) : output.1.name = n.identity := by
  cases slot with
  | passThrough position =>
    simp only [Node.output] at h
    split at h
    · cases h
      rfl
    · cases h
  | computed =>
    simp only [Node.output] at h
    split at h
    · cases h
      rfl
    · cases h

theorem Node.name_of_contribution {n : Node} {output : Column × Value}
    (h : n.contribution b fields = .ok output) : output.1.name = n.identity := by
  cases hfailure : (n.task b fields).2 with
  | some e => cases (contribution_of_failure hfailure).symm.trans h
  | none =>
    rw [contribution_of_task hfailure] at h
    exact (name_of_output h).trans (text_task true b fields n)

namespace Batch

theorem wellTyped_iff : b.WellTyped ↔ ∀ column row, ¬ b.Mistyped column row := by
  simp only [WellTyped, Mistyped, not_exists, not_and, not_not]

theorem mem_columnValues_iff {column : Nat} {v : Value} :
    v ∈ b.columnValues column ↔ ∃ row, b.value? row column = some v := by
  unfold columnValues
  rw [List.mem_filterMap]
  refine exists_congr fun row => and_iff_right_of_imp fun hv => List.mem_range.2 ?_
  obtain ⟨physical, hphysical, -⟩ := Option.bind_eq_some_iff.1 hv
  exact (Array.getElem?_eq_some_iff.1 hphysical).1

theorem wellTyped_iff_columnValues :
    b.WellTyped ↔
      ∀ column ∈ b.columns.zipIdx, ∀ v ∈ b.columnValues column.2, column.1.Admits v := by
  simp only [WellTyped, Prod.forall, List.mem_zipIdx_iff_getElem?, mem_columnValues_iff]
  exact ⟨fun h c column hc v ⟨row, hv⟩ => h column row c v hc hv,
    fun h column row c v hc hv => h c column hc v ⟨row, hv⟩⟩

instance (b : Batch) : Decidable b.WellTyped := decidable_of_iff _ wellTyped_iff_columnValues.symm

/-- What an expression puts into a result fits its column. -/
theorem WellTyped.admits_of_contribution (hb : b.WellTyped) {n : Node} {output : Column × Value}
    (h : n.contribution b fields = .ok output) : output.1.Admits output.2 := by
  cases hfailure : (n.task b fields).2 with
  | some e => cases (Node.contribution_of_failure hfailure).symm.trans h
  | none =>
    rw [Node.contribution_of_task hfailure] at h
    cases hslot : b.slot n with
    | passThrough position =>
      simp only [hslot, Node.output] at h
      split at h
      · next source v hsource hv =>
        cases h
        exact hb position _ source v hsource ((b.lastValue?_eq_value? position).symm.trans hv)
      · cases h
    | computed =>
      simp only [hslot, Node.output] at h
      split at h
      · cases h
        exact .inr rfl
      · cases h

/-! ### All expressions -/

theorem wellTyped_new (columns : List Column) : (new columns).WellTyped := by
  intro column row c v _ hv
  cases hv

theorem wellTyped_ofOutputs {outputs : List (Column × Value)}
    (h : ∀ output ∈ outputs, output.1.Admits output.2) : (ofOutputs outputs).WellTyped := by
  intro column row c v hc hv
  cases row with
  | succ row => cases hv
  | zero =>
    have harray : (ofOutputs outputs).value? 0 column =
        (outputs.map fun output => #[output.2])[column]?.bind (·[0]?) := rfl
    rw [harray, List.getElem?_map] at hv
    change (outputs.map Prod.fst)[column]? = some c at hc
    rw [List.getElem?_map] at hc
    cases houtput : outputs[column]? with
    | none =>
      rw [houtput] at hc
      cases hc
    | some output =>
      rw [houtput] at hc hv
      cases hc
      cases hv
      exact h output (List.mem_of_getElem? houtput)

theorem map_name_of_reduceNodes {out : Batch} (h : (b.reduceNodes nodes fields).2 = .ok out) :
    out.columns.map Column.name = nodes.map Node.identity := by
  by_cases hrows : b.numRows = 0
  · rw [reduceNodes_of_empty hrows] at h
    cases h
    exact List.map_map
  · obtain ⟨outputs, hall, rfl⟩ := (reduceNodes_eq_ok_iff hrows).1 h
    refine Eq.trans List.map_map ?_
    exact map_eq_map_of_mapM_eq_ok (mapM_eq_ok_iff.2 hall)
      fun n _ output hn => Node.name_of_contribution hn

theorem WellTyped.reduceNodes (hb : b.WellTyped) {out : Batch}
    (h : (b.reduceNodes nodes fields).2 = .ok out) : out.WellTyped := by
  by_cases hrows : b.numRows = 0
  · rw [reduceNodes_of_empty hrows] at h
    cases h
    exact wellTyped_new _
  · obtain ⟨outputs, hall, rfl⟩ := (reduceNodes_eq_ok_iff hrows).1 h
    exact wellTyped_ofOutputs <| forall_of_mapM_eq_ok (mapM_eq_ok_iff.2 hall)
      fun n _ output hn => hb.admits_of_contribution hn

/-- A reduction keeps types. If the values of a batch fit their columns, so do those of its
reduction by any plan. If the plan has an expression, the reduction can be written out, and read
back it has the columns and rows that it had. All this holds of any schedule, as a reduction that
succeeds has one result whether failures cancel or not. -/
theorem wellTyped_of_reduce (hb : b.WellTyped) {plan : Plan} (hplan : plan.expressions ≠ []) :
    (∀ out, b.reduce plan = .ok out →
      out.WellTyped ∧ ∃ record back, out.toRecordBatch = .ok record ∧
        ofRecordBatch record = .ok back ∧ back.columns = out.columns ∧ back.rows = out.rows) ∧
    ∀ cancels out, b.MayReduce cancels plan (.ok out) → b.reduce plan = .ok out := by
  refine ⟨fun out h => ?_, fun cancels out h => h.eq_of_ok⟩
  cases hcompile : plan.compile with
  | error failure =>
    simp only [Batch.reduce, hcompile] at h
    cases h
  | ok nodes =>
    rw [reduce_eq_reduceNodes hcompile] at h
    have htyped := hb.reduceNodes h
    have hwf := reduceNodes_wellFormed h
    have hnodes : nodes ≠ [] := by
      rintro rfl
      exact hplan (List.forall₂_nil_right_iff.1 (Plan.compile_eq_ok_iff.1 hcompile))
    have hcolumns : out.columns ≠ [] := by
      intro hnil
      have hnames := map_name_of_reduceNodes h
      rw [hnil] at hnames
      exact hnodes (List.map_eq_nil_iff.1 hnames.symm)
    obtain ⟨record, hrecord⟩ := hwf.exists_toRecordBatch_iff.2 ⟨hcolumns, wellTyped_iff.1 htyped⟩
    obtain ⟨back, hback, hback_columns, hback_rows, -⟩ := hwf.exists_ofRecordBatch hrecord
    exact ⟨htyped, record, back, hrecord, hback, hback_columns, hback_rows⟩

def missingNumbers : Batch :=
  ⟨[⟨"x", .int64⟩, ⟨"s", .string⟩], [#[.null, .null], #[.string "b", .string "a"]], #[1, 0], 2⟩

def sumExtremeLast : Plan :=
  ⟨[.aggregate .sum (.column "x"), .aggregate .min (.column "s"), .column "x"]⟩

/-- The sum of no number is a null of its own type, and the last number one of the type of its
column. -/
theorem wellTyped_of_reduce_missingNumbers :
    missingNumbers.WellTyped ∧ sumExtremeLast.expressions ≠ [] ∧
      ∃ out, missingNumbers.reduce sumExtremeLast = .ok out ∧
        out.columns = [⟨"SUM(x)", .null⟩, ⟨"MIN(s)", .string⟩, ⟨"x", .int64⟩] ∧
        out.rows = [[.null, .string "a", .null]] ∧ out.WellTyped ∧
        ∃ record back, out.toRecordBatch = .ok record ∧ ofRecordBatch record = .ok back ∧
          back.columns = out.columns ∧ back.rows = out.rows := by
  have htyped : missingNumbers.WellTyped := by decide
  have hplan : sumExtremeLast.expressions ≠ [] := by decide
  have hout : missingNumbers.reduce sumExtremeLast = .ok (ofOutputs
      [(⟨"SUM(x)", .null⟩, .null), (⟨"MIN(s)", .string⟩, .string "a"),
        (⟨"x", .int64⟩, .null)]) := by
    rfl
  exact ⟨htyped, hplan, _, hout, rfl, rfl, (wellTyped_of_reduce htyped hplan).1 _ hout⟩

end Batch

end Columnar
