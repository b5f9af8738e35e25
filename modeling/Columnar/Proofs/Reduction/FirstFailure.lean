import Columnar.Batch.Reachable
import Columnar.Proofs.Reduction.Outcome

/-!
# Which failure is reported

An expression that fails on its own fails while rows are folded into it or in its result. Among
failures of one kind the first in the list is reported, but any failure while folding comes before
every failure in a result. So the first expression that fails on its own is reported unless it fails
in its result while a later one fails folding (`reported_first_iff`).
-/

namespace Columnar

namespace Node

variable {b : Batch} {fields : List String} {n : Node}

/-- The reduction of the expression alone fails. -/
def FailsAlone (b : Batch) (fields : List String) (n : Node) : Prop :=
  ∃ e, (b.reduceNodes [n] fields).2 = .error e

/-- The task of the expression fails. -/
def FailsFolding (b : Batch) (fields : List String) (n : Node) : Prop :=
  ∃ e, (n.task b (Text.sortNames fields)).2 = some e

theorem reduceNodes_eq_error_iff_contribution (hrows : b.numRows ≠ 0) {e : ReduceError} :
    (b.reduceNodes [n] fields).2 = .error e ↔
      n.contribution b (Text.sortNames fields) = .error e := by
  rw [Batch.reduceNodes_singleton hrows]
  cases n.contribution b (Text.sortNames fields) <;> simp [Except.map]

theorem failsAlone_iff_contribution (hrows : b.numRows ≠ 0) :
    FailsAlone b fields n ↔ ∃ e, n.contribution b (Text.sortNames fields) = .error e :=
  exists_congr fun _ => reduceNodes_eq_error_iff_contribution hrows

theorem reduceNodes_of_task (hrows : b.numRows ≠ 0) {e : ReduceError}
    (h : (n.task b (Text.sortNames fields)).2 = some e) :
    (b.reduceNodes [n] fields).2 = .error e :=
  (reduceNodes_eq_error_iff_contribution hrows).2 (contribution_of_failure h)

theorem FailsFolding.failsAlone (hrows : b.numRows ≠ 0) (h : FailsFolding b fields n) :
    FailsAlone b fields n := by
  obtain ⟨e, he⟩ := h
  exact ⟨e, reduceNodes_of_task hrows he⟩

end Node

namespace Batch

open Node

variable {b : Batch} {nodes : List Node} {fields : List String}

/-- The reported failure is that of the first expression that fails folding, or, if none does, of
the first that fails. -/
theorem exists_reported (hrows : b.numRows ≠ 0) {e : ReduceError}
    (h : (b.reduceNodes nodes fields).2 = .error e) :
    ∃ n, (First (FailsFolding b fields) nodes n ∨
        (∀ m ∈ nodes, ¬ FailsFolding b fields m) ∧ First (FailsAlone b fields) nodes n) ∧
      (b.reduceNodes [n] fields).2 = .error e := by
  rcases (reduceNodes_eq_error_iff hrows).1 h with ⟨n, hfirst, he⟩ | ⟨hnone, n, hfirst, he⟩
  · exact ⟨n, .inl hfirst, reduceNodes_of_task hrows he⟩
  · refine ⟨n, .inr ⟨fun m hm => ?_, ?_⟩, (reduceNodes_eq_error_iff_contribution hrows).2 he⟩
    · intro hfails
      obtain ⟨d, hd⟩ := hfails
      rw [hnone m hm] at hd
      cases hd
    · exact hfirst.of_imp (fun m => (failsAlone_iff_contribution hrows).1)
        ((failsAlone_iff_contribution hrows).2 ⟨e, he⟩)

/-- The failure that is reported is that of the first expression that fails folding, or, if none
does, of the first that fails alone. So the first that fails alone is reported exactly if it fails
folding, or no expression does, or the first that does has the same failure. -/
theorem reported_first_iff (hrows : b.numRows ≠ 0) {e : ReduceError}
    (h : (b.reduceNodes nodes fields).2 = .error e) :
    (∃ n, (First (FailsFolding b fields) nodes n ∨
        (∀ m ∈ nodes, ¬ FailsFolding b fields m) ∧ First (FailsAlone b fields) nodes n) ∧
      (b.reduceNodes [n] fields).2 = .error e) ∧
    ((∃ n, First (FailsAlone b fields) nodes n ∧ (b.reduceNodes [n] fields).2 = .error e) ↔
      ∀ n m, First (FailsAlone b fields) nodes n → ¬ FailsFolding b fields n →
        First (FailsFolding b fields) nodes m →
        (b.reduceNodes [n] fields).2 = (b.reduceNodes [m] fields).2) := by
  obtain ⟨reported, hreported, he⟩ := exists_reported hrows h
  refine ⟨⟨reported, hreported, he⟩, ?_, fun hagree => ?_⟩
  · intro hclaim n' m hn' _ hm
    obtain ⟨n, hn, hne⟩ := hclaim
    obtain rfl := hn.unique hn'
    rcases hreported with hfolding | ⟨hnone, -⟩
    · obtain rfl := hfolding.unique hm
      exact hne.trans he.symm
    · exact absurd hm.holds (hnone m hm.mem)
  · rcases hreported with hfolding | ⟨-, halone⟩
    · obtain ⟨n, hn⟩ := exists_first (p := FailsAlone b fields)
        ⟨reported, hfolding.mem, hfolding.holds.failsAlone hrows⟩
      by_cases hfolds : FailsFolding b fields n
      · -- Nothing before it fails alone, so nothing before it fails folding.
        have hfirst := hn.of_imp (fun m hm => hm.failsAlone hrows) hfolds
        obtain rfl := hfirst.unique hfolding
        exact ⟨n, hn, he⟩
      · exact ⟨n, hn, (hagree n reported hn hfolds hfolding).trans he⟩
    · exact ⟨reported, halone, he⟩

def numbersAndTexts : Batch :=
  ⟨[⟨"x", .int64⟩, ⟨"s", .string⟩],
    [#[.int64 3, .int64 (-3)], #[.string "a", .string "b"]], #[0, 1], 2⟩

def divisionBySum : Node :=
  .ofBinary (.constant (.int64 10)) (.arithmetic .div) (.ofAggregate .sum (.ofColumn "x"))

def sumOfTexts : Node := .ofAggregate .sum (.ofColumn "s")

theorem failsFolding_sumOfTexts : FailsFolding numbersAndTexts ["s", "x"] sumOfTexts :=
  ⟨.eval (.typeMismatch "numeric" "STRING"), by rfl⟩

/-- Before the division, the sum of texts is the first to fail and is reported. -/
theorem reported_sumOfTexts_first :
    numbersAndTexts.numRows ≠ 0 ∧
      (numbersAndTexts.reduceNodes [sumOfTexts, divisionBySum] ["s", "x"]).2 =
        .error (.eval (.typeMismatch "numeric" "STRING")) ∧
      ∃ n, First (FailsAlone numbersAndTexts ["s", "x"]) [sumOfTexts, divisionBySum] n ∧
        (numbersAndTexts.reduceNodes [n] ["s", "x"]).2 =
          .error (.eval (.typeMismatch "numeric" "STRING")) := by
  have hrows : numbersAndTexts.numRows ≠ 0 := by decide
  have herror : (numbersAndTexts.reduceNodes [sumOfTexts, divisionBySum] ["s", "x"]).2 =
      .error (.eval (.typeMismatch "numeric" "STRING")) := by rfl
  have hfirst : First (FailsAlone numbersAndTexts ["s", "x"]) [sumOfTexts, divisionBySum]
      sumOfTexts := first_cons_iff.2 (.inl ⟨failsFolding_sumOfTexts.failsAlone hrows, rfl⟩)
  refine ⟨hrows, herror, (reported_first_iff hrows herror).2.2 fun n m hn hnot hm => ?_⟩
  exact absurd (hn.unique hfirst ▸ failsFolding_sumOfTexts) hnot

/-- After the division, it is still reported, although the division by zero is the first failure. -/
theorem reported_divisionBySum_first :
    numbersAndTexts.Reachable ∧ numbersAndTexts.numRows ≠ 0 ∧
      (∃ plan : Plan, plan.compile = .ok [divisionBySum, sumOfTexts]) ∧
      Node.leafColumns [divisionBySum, sumOfTexts] = ["s", "x"] ∧
      numbersAndTexts.HasColumns ["s", "x"] ∧
      (numbersAndTexts.reduceNodes [divisionBySum, sumOfTexts] ["s", "x"]).2 =
        .error (.eval (.typeMismatch "numeric" "STRING")) ∧
      First (FailsAlone numbersAndTexts ["s", "x"]) [divisionBySum, sumOfTexts] divisionBySum ∧
      (numbersAndTexts.reduceNodes [divisionBySum] ["s", "x"]).2 =
        .error (.eval .divisionByZero) ∧
      ¬ ∃ n, First (FailsAlone numbersAndTexts ["s", "x"]) [divisionBySum, sumOfTexts] n ∧
        (numbersAndTexts.reduceNodes [n] ["s", "x"]).2 =
          .error (.eval (.typeMismatch "numeric" "STRING")) := by
  have hreachable : ofColumns numbersAndTexts.columns numbersAndTexts.arrays =
      .ok numbersAndTexts := by rfl
  have hcompile : (Plan.mk [.binary (.literal (.int64 10)) (.arithmetic .div)
      (.aggregate .sum (.column "x")), .aggregate .sum (.column "s")]).compile =
      .ok [divisionBySum, sumOfTexts] := by rfl
  have hcolumns : numbersAndTexts.HasColumns ["s", "x"] := by decide
  have halone : (numbersAndTexts.reduceNodes [divisionBySum] ["s", "x"]).2 =
      .error (.eval .divisionByZero) := by rfl
  have hfirst : First (FailsAlone numbersAndTexts ["s", "x"]) [divisionBySum, sumOfTexts]
      divisionBySum := first_cons_iff.2 (.inl ⟨⟨_, halone⟩, rfl⟩)
  refine ⟨.ofColumns hreachable, by decide, ⟨_, hcompile⟩, by decide, hcolumns, by rfl, hfirst,
    halone, ?_⟩
  intro hclaim
  obtain ⟨n, hn, he⟩ := hclaim
  obtain rfl := hn.unique hfirst
  cases halone.symm.trans he

end Batch

end Columnar
