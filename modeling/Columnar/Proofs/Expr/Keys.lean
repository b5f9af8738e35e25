import Columnar.Proofs.Batch.History
import Columnar.Proofs.Expr.Compilation
import Columnar.Proofs.Node.Keys

/-!
# Expressions and their keys

Whether an expression is passed through is decided by its key alone: a column of that name stands in
for whatever the expression computes. This is sound because a compiled expression is read off its
key (`Node.Plain.readable`), so that no two of them share one; and a column whose name is an
identifier only ever stands in for references to it.
-/

namespace Columnar

open Text (Identifier)

namespace Expr

/-- Removing the aliases of a compiled expression leaves nothing that a key does not show. -/
theorem plain_of_compile {e : Expr} {n : Node} (h : e.compile = .ok n)
    (hnames : ∀ name ∈ e.columnNames, Identifier name) : n.withoutAliases.Plain := by
  induction e generalizing n with
  | literal value =>
    cases h
    exact .constant value
  | column name =>
    cases h
    exact .column (hnames name List.mem_cons_self)
  | binary left op right hleft hright =>
    obtain ⟨l, r, hl, hr, rfl⟩ := compile_binary_iff.1 h
    obtain ⟨hnamesl, hnamesr⟩ := List.forall_mem_append.1 hnames
    exact .binary op (hleft hl hnamesl) (hright hr hnamesr)
  | unary op operand ih =>
    obtain ⟨o, ho, rfl⟩ := compile_unary_iff.1 h
    exact .unary op (ih ho hnames)
  | call name arguments ih =>
    obtain ⟨function, ns, -, -, hns, rfl⟩ := compile_call_iff.1 h
    rw [columnNames, columnNamesOf_eq_flatMap] at hnames
    have hplain : ∀ n ∈ ns, n.withoutAliases.Plain := by
      refine forall_of_mapM_eq_ok hns fun e he n hn => ih e he hn fun name hname => ?_
      exact hnames name (List.mem_flatMap.2 ⟨e, he, hname⟩)
    rw [Node.ofCall, Node.withoutAliases, Node.withoutAliasesAll_eq_map]
    exact .call function (List.forall_mem_map.2 hplain)
  | aggregate function argument ih =>
    obtain ⟨-, a, ha, rfl⟩ := compile_aggregate_iff.1 h
    exact .aggregate function (ih ha hnames)
  | aggregateRows function =>
    obtain ⟨-, rfl⟩ := compile_aggregateRows_iff.1 h
    exact .aggregateRows function
  | named inner name ih =>
    obtain ⟨-, i, hi, rfl⟩ := compile_named_iff.1 h
    rw [Node.withoutAliases]
    exact ih hi hnames

/-- A key that is an identifier is the name of the column that it refers to. The columns below the
expression may have any names. -/
theorem eq_column_of_identifier {e : Expr} {n : Node} (h : e.compile = .ok n)
    (hkey : Identifier n.key) : e.withoutAliases = .column n.key := by
  have hparen : '(' ∉ n.keyChars := fun hmem => absurd (hkey.isWordChar hmem) (by decide)
  induction e generalizing n with
  | literal value =>
    cases h
    exact absurd rfl (value.literalText.ne_identifier hkey Text.stops_nil Text.stops_nil)
  | column name =>
    cases h
    rfl
  | binary left op right _ _ =>
    obtain ⟨l, r, -, -, rfl⟩ := compile_binary_iff.1 h
    rw [Node.keyChars_ofBinary] at hparen
    exact absurd List.mem_cons_self hparen
  | unary op operand _ =>
    obtain ⟨o, -, rfl⟩ := compile_unary_iff.1 h
    cases op with
    | not =>
      rw [Node.keyChars_ofUnary_not] at hparen
      exact absurd List.mem_cons_self hparen
    | neg =>
      rw [Node.keyChars_ofUnary_neg] at hparen
      exact absurd List.mem_cons_self hparen
  | call name arguments _ =>
    obtain ⟨function, ns, -, -, -, rfl⟩ := compile_call_iff.1 h
    rw [Node.keyChars_ofCall] at hparen
    exact absurd (List.mem_append_right _ List.mem_cons_self) hparen
  | aggregate function argument _ =>
    obtain ⟨-, a, -, rfl⟩ := compile_aggregate_iff.1 h
    rw [Node.keyChars_ofAggregate] at hparen
    exact absurd (List.mem_append_right _ List.mem_cons_self) hparen
  | aggregateRows function =>
    obtain ⟨-, rfl⟩ := compile_aggregateRows_iff.1 h
    rw [Node.keyChars_ofAggregateRows] at hparen
    exact absurd (List.mem_append_right _ List.mem_cons_self) hparen
  | named inner name ih =>
    obtain ⟨-, i, hi, rfl⟩ := compile_named_iff.1 h
    have hinner : inner.withoutAliases = .column i.key := ih hi hkey hparen
    exact hinner

/-- Where all columns have identifiers as names, a column stands in for the references to it. -/
theorem slot_eq_passThrough_iff {b : Batch} (hb : ∀ c ∈ b.columns, Identifier c.name) {e : Expr}
    {n : Node} (h : e.compile = .ok n) {position : Nat} :
    b.slot n = .passThrough position ↔
      ∃ name, e.withoutAliases = .column name ∧ b.position? name = some position := by
  have hslot : b.slot n = .passThrough position ↔ b.position? n.key = some position := by
    unfold Batch.slot
    cases b.position? n.key <;> simp
  rw [hslot]
  constructor
  · intro hposition
    obtain ⟨c, hc, hname⟩ := Batch.exists_column_of_position? hposition
    have hkey : Identifier n.key := hname ▸ hb c (List.mem_of_getElem? hc)
    exact ⟨n.key, eq_column_of_identifier h hkey, hposition⟩
  · intro hcolumn
    obtain ⟨name, heq, hposition⟩ := hcolumn
    rw [key_of_compile h, heq]
    exact hposition

/-- Keys are unambiguous. If the columns of two compiled expressions have identifiers as names and
the keys are the same, then so are the trees without their aliases, up to literals that are written
alike. If the columns of a batch have identifiers as names, the expressions of a plan that are
passed through are the references to these columns, under aliases or not, and no others. -/
theorem keys_unambiguous :
    (∀ (e d : Expr) (n m : Node), e.compile = .ok n → d.compile = .ok m →
      (∀ name ∈ e.columnNames, Identifier name) → (∀ name ∈ d.columnNames, Identifier name) →
      n.key = m.key → n.withoutAliases.printed = m.withoutAliases.printed) ∧
    ∀ (b : Batch) (plan : Plan) (nodes : List Node), plan.compile = .ok nodes →
      (∀ c ∈ b.columns, Identifier c.name) →
      ∀ (i : Nat) (e : Expr), plan.expressions[i]? = some e → ∀ position,
        (b.partition nodes)[i]? = some (.passThrough position) ↔
          ∃ name, e.withoutAliases = .column name ∧ b.position? name = some position := by
  constructor
  · intro e d n m hn hm he hd hkey
    have hchars : n.withoutAliases.keyChars ++ [] = m.withoutAliases.keyChars ++ [] := by
      rw [Node.keyChars, Node.keyChars, Node.key_withoutAliases, Node.key_withoutAliases, hkey]
    have hplain := plain_of_compile hm hd
    exact ((plain_of_compile hn he).readable hplain Text.stops_nil Text.stops_nil hchars).1
  · intro b plan nodes hnodes hb i e he position
    obtain ⟨hlength, hget⟩ := List.forall₂_iff_get.1 (Plan.compile_eq_ok_iff.1 hnodes)
    obtain ⟨hlt, rfl⟩ := List.getElem?_eq_some_iff.1 he
    have hn := hget i hlt (hlength ▸ hlt)
    rw [Batch.partition, List.getElem?_map, List.getElem?_eq_getElem (hlength ▸ hlt),
      Option.map_some, Option.some.injEq]
    exact slot_eq_passThrough_iff hb hn

/-- One and a half in either width. -/
def narrowNumber : Value := .float32 (.number false 0x3FC00000 (by decide))

def wideNumber : Value := .float64 (.number false 0x3FF8000000000000 (by decide +kernel))

def narrowTest : Expr :=
  .binary (.named (.call "abs" [.unary .neg (.column "t.x")]) "size") (.comparison .lt)
    (.literal narrowNumber)

def wideTest : Expr :=
  .binary (.call "ABS" [.unary .neg (.named (.column "t.x") "x")]) (.comparison .lt)
    (.literal wideNumber)

def narrowTestNode : Node :=
  .ofBinary (.named (.ofCall .abs [.ofUnary .neg (.ofColumn "t.x")]) "size") (.comparison .lt)
    (.constant narrowNumber)

def wideTestNode : Node :=
  .ofBinary (.ofCall .abs [.ofUnary .neg (.named (.ofColumn "t.x") "x")]) (.comparison .lt)
    (.constant wideNumber)

/-- Two tests that differ in aliases and in the width of a number have one key, and so the same tree
otherwise; next to them only the alias of a column is passed through. -/
theorem keys_unambiguous_narrowTest_wideTest :
    (narrowTest.compile = .ok narrowTestNode ∧ wideTest.compile = .ok wideTestNode ∧
      narrowTestNode.key = "(ABS((-t.x)) < 1.5)" ∧
      narrowTestNode.withoutAliases.printed = wideTestNode.withoutAliases.printed) ∧
    ∃ b : Batch, b.columns = [⟨"s", .string⟩, ⟨"t.x", .int64⟩] ∧
      (b.partition [narrowTestNode, .named (.ofColumn "t.x") "last"])[1]? =
        some (.passThrough 1) ∧
      (b.partition [narrowTestNode, .named (.ofColumn "t.x") "last"])[0]? ≠
        some (.passThrough 1) := by
  have hnarrow : narrowTest.compile = .ok narrowTestNode := by rfl
  have hwide : wideTest.compile = .ok wideTestNode := by rfl
  have hkey : narrowTestNode.key = "(ABS((-t.x)) < 1.5)" := by decide +kernel
  have hkey' : wideTestNode.key = "(ABS((-t.x)) < 1.5)" := by decide +kernel
  have hplan : (Plan.mk [narrowTest, .named (.column "t.x") "last"]).compile =
      .ok [narrowTestNode, .named (.ofColumn "t.x") "last"] := by rfl
  have hcolumns : ∀ c ∈ (Batch.new [⟨"s", .string⟩, ⟨"t.x", .int64⟩]).columns,
      Identifier c.name := by decide
  obtain ⟨htrees, hpartition⟩ := keys_unambiguous
  have hslots := hpartition _ _ _ hplan hcolumns
  refine ⟨⟨hnarrow, hwide, hkey, htrees _ _ _ _ hnarrow hwide (by decide) (by decide)
    (hkey.trans hkey'.symm)⟩, Batch.new [⟨"s", .string⟩, ⟨"t.x", .int64⟩], rfl, ?_,
    fun hpassed => ?_⟩
  · exact (hslots 1 _ rfl 1).2 ⟨"t.x", by rfl, by decide⟩
  · obtain ⟨name, hcolumn, -⟩ := (hslots 0 _ rfl 1).1 hpassed
    cases hcolumn

end Expr

end Columnar
