import Columnar.Proofs.Node.Tree
import Columnar.Proofs.Text.Literals

/-!
# Reading a key

A key is the flat text of a tree, and yet the tree can be read off it as long as column names are
identifiers. What kind of node a key is of shows at its start: a word that a parenthesis follows is
the name of a function, a parenthesis without a word opens an operator, and everything else is a
leaf. An operator is told by what comes after the parenthesis, where the one doubtful case is a
minus sign: it negates an operand or belongs to a number on the left of another operator, and what
stands after the number decides. `Plain.readable` puts this together by induction, for keys that
have more text behind them.
-/

namespace Columnar

namespace Node

open Text (Stops Identifier)

/-! ### Trees that keys tell apart -/

/-- Nodes that have seen no row and have no aliases, with identifiers for column names. -/
inductive Plain : Node → Prop where
  | constant (value : Value) : Plain (.constant value)
  | column {name : String} (hname : Identifier name) : Plain (.ofColumn name)
  | binary {left right : Node} (op : BinaryOp) (hleft : Plain left) (hright : Plain right) :
      Plain (.ofBinary left op right)
  | unary {operand : Node} (op : UnaryOp) (hoperand : Plain operand) : Plain (.ofUnary op operand)
  | call {arguments : List Node} (function : ScalarFunction)
      (harguments : ∀ n ∈ arguments, Plain n) : Plain (.ofCall function arguments)
  | aggregate {argument : Node} (function : AggregateFunction) (hargument : Plain argument) :
      Plain (.ofAggregate function argument)
  | aggregateRows (function : AggregateFunction) : Plain (.ofAggregateRows function)

mutual

def printed : Node → Node
  | constant value => constant (.string value.literal)
  | column name current => column name current
  | binary left op right current => binary left.printed op right.printed current
  | unary op operand current => unary op operand.printed current
  | call function arguments current => call function (printedAll arguments) current
  | aggregate function argument acc => aggregate function argument.printed acc
  | aggregateRows function acc => aggregateRows function acc
  | named inner name => named inner.printed name
  | probe label names faultOn => probe label names faultOn

def printedAll : List Node → List Node
  | [] => []
  | n :: rest => n.printed :: printedAll rest

end

@[simp] theorem printedAll_eq_map (ns : List Node) : printedAll ns = ns.map printed := by
  induction ns with
  | nil => rfl
  | cons n rest ih => rw [printedAll, ih, List.map_cons]

/-! ### The characters of a key -/

def keyChars (n : Node) : List Char := n.key.toList

def argumentChars : List Node → List Char
  | [] => []
  | n :: rest => n.keyChars ++ rest.flatMap fun m => ',' :: ' ' :: m.keyChars

theorem keyChars_ofColumn (name : String) : (ofColumn name).keyChars = name.toList := rfl

theorem keyChars_ofBinary (left : Node) (op : BinaryOp) (right : Node) :
    (ofBinary left op right).keyChars =
      '(' :: (left.keyChars ++ ' ' :: (op.symbol.toList ++ ' ' :: (right.keyChars ++ [')']))) := by
  simp [keyChars, key, ofBinary, text]

theorem keyChars_ofUnary_not (operand : Node) :
    (ofUnary .not operand).keyChars =
      '(' :: ("NOT".toList ++ ' ' :: (operand.keyChars ++ [')'])) := by
  simp [keyChars, key, ofUnary, text, unaryText]

theorem keyChars_ofUnary_neg (operand : Node) :
    (ofUnary .neg operand).keyChars = '(' :: '-' :: (operand.keyChars ++ [')']) := by
  simp [keyChars, key, ofUnary, text, unaryText]

theorem intercalate_keyChars (ns : List Node) :
    ", ".toList.intercalate (ns.map keyChars) = argumentChars ns := by
  induction ns with
  | nil => rfl
  | cons n rest ih =>
    cases rest with
    | nil => simp [argumentChars]
    | cons m rest =>
      rw [List.map_cons, List.map_cons, List.intercalate_cons_cons, ← List.map_cons, ih]
      simp [argumentChars]

theorem keyChars_ofCall (function : ScalarFunction) (arguments : List Node) :
    (ofCall function arguments).keyChars =
      function.name.toList ++ '(' :: (argumentChars arguments ++ [')']) := by
  have htexts : (arguments.map (text false)).map String.toList = arguments.map keyChars :=
    List.map_map
  simp [keyChars, key, ofCall, text, String.toList_intercalate, htexts, ← intercalate_keyChars]

theorem keyChars_ofAggregate (function : AggregateFunction) (argument : Node) :
    (ofAggregate function argument).keyChars =
      function.name.toList ++ '(' :: (argument.keyChars ++ [')']) := by
  simp [keyChars, key, ofAggregate, text]

theorem keyChars_ofAggregateRows (function : AggregateFunction) :
    (ofAggregateRows function).keyChars = function.name.toList ++ '(' :: ['*', ')'] := by
  simp [keyChars, key, ofAggregateRows, text]

/-! ### What a key opens with -/

/-- The word before the parenthesis that the key of a node opens with, if it opens with one. -/
def opening : Node → Option (List Char)
  | binary _ _ _ _ | unary _ _ _ => some []
  | call function _ _ => some function.name.toList
  | aggregate function _ _ | aggregateRows function _ => some function.name.toList
  | _ => none

theorem scalarFunction_ne_aggregateFunction (f : ScalarFunction) (g : AggregateFunction) :
    f.name.toList ≠ g.name.toList := by
  cases f <;> cases g <;> decide

theorem scalarFunction_name_injective {f g : ScalarFunction} (h : f.name.toList = g.name.toList) :
    f = g := by
  cases f <;> cases g <;> first | rfl | exact absurd h (by decide)

theorem aggregateFunction_name_injective {f g : AggregateFunction}
    (h : f.name.toList = g.name.toList) : f = g := by
  cases f <;> cases g <;> first | rfl | exact absurd h (by decide)

theorem scalarFunction_ne_nil (f : ScalarFunction) : f.name.toList ≠ [] := by
  cases f <;> decide

theorem aggregateFunction_ne_nil (f : AggregateFunction) : f.name.toList ≠ [] := by
  cases f <;> decide

/-- The words that stand before a parenthesis, of which operators have none. -/
def openingWords : List String :=
  ["", "ABS", "UPPER", "LOWER", "LENGTH", "COALESCE", "COUNT", "SUM", "AVG", "MIN", "MAX"]

/-- A key is that of a leaf, or opens a parenthesis after one of the words. -/
inductive Form : Node → Prop where
  | literal (v : Value) : Form (.constant v)
  | column {name : String} (hname : Identifier name) : Form (.ofColumn name)
  | opened {n : Node} {word : String} {rest : List Char} (hword : word ∈ openingWords)
      (hkey : n.keyChars = word.toList ++ '(' :: rest)
      (hopening : n.opening = some word.toList) : Form n

variable {n m : Node} {s t : List Char}

theorem Plain.form (hn : n.Plain) : n.Form := by
  have hscalar : ∀ function : ScalarFunction, function.name ∈ openingWords := by
    intro function
    cases function <;> decide
  have haggregate : ∀ function : AggregateFunction, function.name ∈ openingWords := by
    intro function
    cases function <;> decide
  have hoperator : "" ∈ openingWords := by decide
  cases hn with
  | constant v => exact .literal v
  | column hname => exact .column hname
  | binary op _ _ => exact .opened hoperator (keyChars_ofBinary _ op _) rfl
  | unary op _ =>
    cases op with
    | not => exact .opened hoperator (keyChars_ofUnary_not _) rfl
    | neg => exact .opened hoperator (keyChars_ofUnary_neg _) rfl
  | call function _ => exact .opened (hscalar function) (keyChars_ofCall function _) rfl
  | aggregate function _ =>
    exact .opened (haggregate function) (keyChars_ofAggregate function _) rfl
  | aggregateRows function =>
    exact .opened (haggregate function) (keyChars_ofAggregateRows function) rfl

theorem isWordChar_openingWord {word : String} (h : word ∈ openingWords) :
    ∀ c ∈ word.toList, Text.isWordChar c = true := by
  have hall : ∀ word ∈ openingWords, word.toList.all Text.isWordChar = true := by decide
  exact List.all_eq_true.1 (hall word h)

theorem Plain.opening_eq (hn : n.Plain) (hs : Stops s) :
    Text.opening (n.keyChars ++ s) = n.opening := by
  cases hn.form with
  | literal v => exact v.literalText.opening hs
  | column hname =>
    exact Text.opening_append (fun c => hname.isWordChar) hs.endsWord (hs.head?_ne (by decide))
  | opened hword hkey hopening =>
    rw [hkey, hopening, List.append_assoc]
    exact Text.opening_append_paren (isWordChar_openingWord hword)

theorem Plain.opening_congr (hn : n.Plain) (hm : m.Plain) (hs : Stops s) (ht : Stops t)
    (h : n.keyChars ++ s = m.keyChars ++ t) : m.opening = n.opening := by
  rw [← hn.opening_eq hs, h, hm.opening_eq ht]

theorem Plain.of_opening_eq_none (hn : n.Plain) (h : n.opening = none) :
    (∃ v, n = .constant v) ∨ ∃ name, Identifier name ∧ n = ofColumn name := by
  cases hn with
  | constant v => exact .inl ⟨v, rfl⟩
  | column hname => exact .inr ⟨_, hname, rfl⟩
  | binary | unary | call | aggregate | aggregateRows => cases h

theorem Plain.of_opening_eq_nil (hn : n.Plain) (h : n.opening = some []) :
    (∃ l op r, l.Plain ∧ r.Plain ∧ n = ofBinary l op r) ∨ ∃ op o, o.Plain ∧ n = ofUnary op o := by
  cases hn with
  | constant | column => cases h
  | binary op hl hr => exact .inl ⟨_, op, _, hl, hr, rfl⟩
  | unary op ho => exact .inr ⟨op, _, ho, rfl⟩
  | call function _ => exact absurd (Option.some.inj h) (scalarFunction_ne_nil function)
  | aggregate function _ | aggregateRows function =>
    exact absurd (Option.some.inj h) (aggregateFunction_ne_nil function)

theorem Plain.of_opening_eq_scalar (hn : n.Plain) {f : ScalarFunction}
    (h : n.opening = some f.name.toList) :
    ∃ arguments, (∀ a ∈ arguments, a.Plain) ∧ n = ofCall f arguments := by
  cases hn with
  | constant | column => cases h
  | binary | unary => exact absurd (Option.some.inj h).symm (scalarFunction_ne_nil f)
  | call function harguments =>
    obtain rfl := scalarFunction_name_injective (Option.some.inj h)
    exact ⟨_, harguments, rfl⟩
  | aggregate function _ | aggregateRows function =>
    exact absurd (Option.some.inj h).symm (scalarFunction_ne_aggregateFunction f function)

theorem Plain.of_opening_eq_aggregate (hn : n.Plain) {f : AggregateFunction}
    (h : n.opening = some f.name.toList) :
    (∃ a, a.Plain ∧ n = ofAggregate f a) ∨ n = ofAggregateRows f := by
  cases hn with
  | constant | column => cases h
  | binary | unary => exact absurd (Option.some.inj h).symm (aggregateFunction_ne_nil f)
  | call function _ =>
    exact absurd (Option.some.inj h) (scalarFunction_ne_aggregateFunction function f)
  | aggregate function ha =>
    obtain rfl := aggregateFunction_name_injective (Option.some.inj h)
    exact .inl ⟨_, ha, rfl⟩
  | aggregateRows function =>
    obtain rfl := aggregateFunction_name_injective (Option.some.inj h)
    exact .inr rfl

/-! ### After the parenthesis of an operator -/

theorem Plain.firstWord_ne_not (hn : n.Plain) (hs : Stops s) :
    Text.firstWord (n.keyChars ++ s) ≠ "NOT".toList := by
  cases hn.form with
  | literal v => exact v.literalText.firstWord_ne_not hs
  | column hname =>
    rw [keyChars_ofColumn, Text.firstWord_append (fun c => hname.isWordChar) hs.endsWord]
    exact hname.ne_reserved "NOT" (by decide)
  | @opened _ word rest hword hkey _ =>
    have hparen : Text.EndsWord ('(' :: (rest ++ s)) := Text.endsWord_cons rfl
    rw [hkey, List.append_assoc, List.cons_append,
      Text.firstWord_append (isWordChar_openingWord hword) hparen]
    exact (by decide : ∀ word ∈ openingWords, word.toList ≠ "NOT".toList) word hword

theorem Plain.unsigned_of_minus (hn : n.Plain) (h : n.keyChars ++ s = '-' :: t) :
    ∃ w, Text.Unsigned w ∧ n.keyChars = '-' :: w := by
  cases hn.form with
  | literal v => exact v.literalText.unsigned_of_minus h
  | @column name hname =>
    obtain ⟨c, rest, hcons⟩ := List.exists_cons_of_ne_nil hname.ne_nil
    rw [keyChars_ofColumn, hcons] at h
    exact absurd (List.cons.inj h).1 (hname.head hcons).2
  | @opened _ word rest hword hkey _ =>
    have hhead := congrArg List.head? h
    rw [hkey, List.append_assoc, List.head?_append] at hhead
    exact absurd hhead ((by decide : ∀ word ∈ openingWords,
      word.toList.head?.or (some '(') ≠ some '-') word hword)

/-- What follows a number without a sign is no part of a key. -/
theorem Plain.ne_unsigned_append (hn : n.Plain) {w : List Char} (hw : Text.Unsigned w) :
    w ++ ' ' :: t ≠ n.keyChars ++ ')' :: s := by
  intro h
  have hopening : n.opening = none := by
    rw [← hn.opening_eq (Text.stops_paren s), ← h]
    exact Text.opening_append hw.isWordChar (Text.endsWord_cons rfl) (by simp)
  cases hn.form with
  | literal v => exact v.literalText.ne_unsigned_append hw h
  | column hname =>
    have hmarks := (Text.words_inj hw.isWordChar (fun c => hname.isWordChar)
      (Text.endsWord_cons rfl) (Text.endsWord_cons rfl) h).2
    exact absurd (List.cons.inj hmarks).1 (by decide)
  | opened _ _ hopened => cases hopened.symm.trans hopening

theorem Plain.keyChars_binary_ne_unary {l r o : Node} (hl : l.Plain) (ho : o.Plain) (op : BinaryOp)
    (op' : UnaryOp) : (ofBinary l op r).keyChars ++ s ≠ (ofUnary op' o).keyChars ++ t := by
  intro h
  cases op' with
  | not =>
    -- The first word after the parenthesis would be that of the left operand.
    simp only [keyChars_ofBinary, keyChars_ofUnary_not, List.cons_append, List.append_assoc,
      List.nil_append] at h
    have hfirst := hl.firstWord_ne_not
      (Text.stops_space (op.symbol.toList ++ ' ' :: (r.keyChars ++ ')' :: s)))
    have hnot : "NOT".toList.all Text.isWordChar = true := by decide
    rw [(List.cons.inj h).2] at hfirst
    exact hfirst (Text.firstWord_append (List.all_eq_true.1 hnot) (Text.endsWord_cons rfl))
  | neg =>
    -- The sign would be that of a number, after which an operand ends and an operator does not.
    simp only [keyChars_ofBinary, keyChars_ofUnary_neg, List.cons_append, List.append_assoc,
      List.nil_append] at h
    have hminus := (List.cons.inj h).2
    obtain ⟨w, hw, hsign⟩ := hl.unsigned_of_minus hminus
    rw [hsign] at hminus
    exact ho.ne_unsigned_append hw (List.cons.inj hminus).2

theorem keyChars_ofUnary_inj {o o' : Node} {op op' : UnaryOp}
    (h : (ofUnary op o).keyChars ++ s = (ofUnary op' o').keyChars ++ t) :
    op = op' ∧ o.keyChars ++ ')' :: s = o'.keyChars ++ ')' :: t := by
  cases op <;> cases op' <;>
    simp only [keyChars_ofUnary_not, keyChars_ofUnary_neg, List.cons_append, List.append_assoc,
      List.nil_append] at h
  case not.not => exact ⟨rfl, (List.cons.inj (List.append_cancel_left (List.cons.inj h).2)).2⟩
  case neg.neg => exact ⟨rfl, (List.cons.inj (List.cons.inj h).2).2⟩
  case not.neg | neg.not => cases h

/-! ### Reading the whole key -/

theorem symbol_injective {op op' : BinaryOp} (h : op.symbol.toList = op'.symbol.toList) :
    op = op' := by
  obtain (op | op | op) := op <;> obtain (op' | op' | op') := op' <;> cases op <;> cases op' <;>
    first | rfl | exact absurd h (by decide)

theorem symbol_inj {op op' : BinaryOp} (h : op.symbol.toList ++ ' ' :: s =
    op'.symbol.toList ++ ' ' :: t) : op = op' ∧ s = t := by
  have hrun : ∀ op : BinaryOp, ∀ c ∈ op.symbol.toList, (c != ' ') = true := by
    intro op
    refine List.all_eq_true.1 ?_
    obtain (op | op | op) := op <;> cases op <;> decide
  obtain ⟨hsymbol, hrest⟩ := Text.run_inj (hrun op) (hrun op') (by simp) (by simp) h
  exact ⟨symbol_injective hsymbol, (List.cons.inj hrest).2⟩

theorem Plain.head (hn : n.Plain) {c : Char} (h : n.keyChars ++ s = c :: t) :
    Text.isWordChar c = true ∨ c = '\x27' ∨ c = '(' := by
  cases hn.form with
  | literal v => exact (v.literalText.head h).imp_right .inl
  | column hname => exact .inl (Text.isWordChar_head (fun c => hname.isWordChar) hname.ne_nil h)
  | @opened _ word rest hword hkey _ =>
    rw [hkey, List.append_assoc] at h
    by_cases hne : word.toList = []
    · rw [hne] at h
      exact .inr (.inr (List.cons.inj h).1.symm)
    · exact .inl (Text.isWordChar_head (isWordChar_openingWord hword) hne h)

/-- Where the key of the node stands in a text, no other key stands, and what comes after it is
settled. -/
def Readable (n : Node) : Prop :=
  ∀ {m : Node} {s t : List Char}, m.Plain → Stops s → Stops t →
    n.keyChars ++ s = m.keyChars ++ t → n.printed = m.printed ∧ s = t

theorem readable_constant (v : Value) : (constant v).Readable := by
  intro m s t hm hs ht h
  have hopening := (Plain.constant v).opening_congr hm hs ht h
  rcases hm.of_opening_eq_none hopening with ⟨w, rfl⟩ | ⟨name, hname, rfl⟩
  · obtain ⟨hliteral, hrest⟩ := v.literalText.inj w.literalText hs ht h
    exact ⟨by rw [printed, printed, String.toList_injective hliteral], hrest⟩
  · exact absurd h (v.literalText.ne_identifier hname hs ht)

theorem readable_ofColumn {name : String} (hname : Identifier name) :
    (ofColumn name).Readable := by
  intro m s t hm hs ht h
  have hopening := (Plain.column hname).opening_congr hm hs ht h
  rcases hm.of_opening_eq_none hopening with ⟨w, rfl⟩ | ⟨name', hname', rfl⟩
  · exact absurd h.symm (w.literalText.ne_identifier hname ht hs)
  · obtain ⟨heq, hrest⟩ := Text.words_inj (fun c => hname.isWordChar) (fun c => hname'.isWordChar)
      hs.endsWord ht.endsWord h
    exact ⟨by rw [String.toList_injective heq], hrest⟩

theorem Readable.ofBinary {l r : Node} (hl : l.Plain) (hr : r.Plain) (hreadl : l.Readable)
    (hreadr : r.Readable) (op : BinaryOp) : (ofBinary l op r).Readable := by
  intro m s t hm hs ht h
  have hopening := (Plain.binary op hl hr).opening_congr hm hs ht h
  rcases hm.of_opening_eq_nil hopening with ⟨l', op', r', hl', hr', rfl⟩ | ⟨op', o, ho, rfl⟩
  · simp only [keyChars_ofBinary, List.cons_append, List.append_assoc, List.nil_append] at h
    obtain ⟨hleft, h⟩ := hreadl hl' (Text.stops_space _) (Text.stops_space _) (List.cons.inj h).2
    obtain ⟨rfl, hafter⟩ := symbol_inj (List.cons.inj h).2
    obtain ⟨hright, hend⟩ := hreadr hr' (Text.stops_paren s) (Text.stops_paren t) hafter
    refine ⟨?_, (List.cons.inj hend).2⟩
    rw [Node.ofBinary, Node.ofBinary, printed, printed, hleft, hright]
  · exact absurd h (hl.keyChars_binary_ne_unary ho op op')

theorem Readable.ofUnary {o : Node} (ho : o.Plain) (hread : o.Readable) (op : UnaryOp) :
    (ofUnary op o).Readable := by
  intro m s t hm hs ht h
  have hopening := (Plain.unary op ho).opening_congr hm hs ht h
  rcases hm.of_opening_eq_nil hopening with ⟨l, op', r, hl, hr, rfl⟩ | ⟨op', o', ho', rfl⟩
  · exact absurd h.symm (hl.keyChars_binary_ne_unary ho op' op)
  · obtain ⟨rfl, hafter⟩ := keyChars_ofUnary_inj h
    obtain ⟨hoperand, hend⟩ := hread ho' (Text.stops_paren s) (Text.stops_paren t) hafter
    refine ⟨?_, (List.cons.inj hend).2⟩
    rw [Node.ofUnary, Node.ofUnary, printed, printed, hoperand]

theorem Plain.keyChars_aggregate_ne_rows {a : Node} (ha : a.Plain) (function : AggregateFunction) :
    (ofAggregate function a).keyChars ++ s ≠ (ofAggregateRows function).keyChars ++ t := by
  intro h
  simp only [keyChars_ofAggregate, keyChars_ofAggregateRows, List.append_assoc,
    List.cons_append] at h
  exact absurd (ha.head (List.cons.inj (List.append_cancel_left h)).2) (by decide)

theorem Readable.ofAggregate {a : Node} (ha : a.Plain) (hread : a.Readable)
    (function : AggregateFunction) : (ofAggregate function a).Readable := by
  intro m s t hm hs ht h
  have hopening := (Plain.aggregate function ha).opening_congr hm hs ht h
  rcases hm.of_opening_eq_aggregate hopening with ⟨a', ha', rfl⟩ | rfl
  · simp only [keyChars_ofAggregate, List.append_assoc, List.cons_append, List.nil_append] at h
    obtain ⟨hargument, h⟩ := hread ha' (Text.stops_paren _) (Text.stops_paren _)
      (List.cons.inj (List.append_cancel_left h)).2
    refine ⟨?_, (List.cons.inj h).2⟩
    rw [Node.ofAggregate, Node.ofAggregate, printed, printed, hargument]
  · exact absurd h (ha.keyChars_aggregate_ne_rows function)

theorem readable_ofAggregateRows (function : AggregateFunction) :
    (ofAggregateRows function).Readable := by
  intro m s t hm hs ht h
  have hopening := (Plain.aggregateRows function).opening_congr hm hs ht h
  rcases hm.of_opening_eq_aggregate hopening with ⟨a', ha', rfl⟩ | rfl
  · exact absurd h.symm (ha'.keyChars_aggregate_ne_rows function)
  · exact ⟨rfl, List.append_cancel_left h⟩

/-! ### Reading arguments -/

theorem stops_arguments (ns : List Node) (s : List Char) :
    Stops ((ns.flatMap fun n => ',' :: ' ' :: n.keyChars) ++ ')' :: s) := by
  cases ns with
  | nil => exact Text.stops_paren s
  | cons n rest => exact Text.stops_comma _

/-- Arguments after the first are read one by one until no comma follows. -/
theorem arguments_inj {ns ms : List Node} (hns : ∀ n ∈ ns, n.Readable) (hms : ∀ m ∈ ms, m.Plain)
    (h : (ns.flatMap fun n => ',' :: ' ' :: n.keyChars) ++ ')' :: s =
      (ms.flatMap fun m => ',' :: ' ' :: m.keyChars) ++ ')' :: t) :
    ns.map printed = ms.map printed ∧ s = t := by
  induction ns generalizing ms with
  | nil =>
    cases ms with
    | nil => exact ⟨rfl, (List.cons.inj h).2⟩
    | cons m ms => exact absurd (List.cons.inj h).1 (by decide)
  | cons n ns ih =>
    cases ms with
    | nil => exact absurd (List.cons.inj h).1 (by decide)
    | cons m ms =>
      obtain ⟨hn, hns⟩ := List.forall_mem_cons.1 hns
      obtain ⟨hm, hms⟩ := List.forall_mem_cons.1 hms
      simp only [List.flatMap_cons, List.cons_append, List.append_assoc] at h
      obtain ⟨hfirst, h⟩ := hn hm (stops_arguments ns s) (stops_arguments ms t)
        (List.cons.inj (List.cons.inj h).2).2
      obtain ⟨hrest, hend⟩ := ih hns hms h
      exact ⟨by rw [List.map_cons, List.map_cons, hfirst, hrest], hend⟩

theorem argumentChars_inj {ns ms : List Node} (hns : ∀ n ∈ ns, n.Plain ∧ n.Readable)
    (hms : ∀ m ∈ ms, m.Plain) (h : argumentChars ns ++ ')' :: s = argumentChars ms ++ ')' :: t) :
    ns.map printed = ms.map printed ∧ s = t := by
  -- No key begins with the parenthesis that ends a list without arguments.
  have hparen : ¬ (Text.isWordChar ')' = true ∨ ')' = '\x27' ∨ ')' = '(') := by decide
  cases ns with
  | nil =>
    cases ms with
    | nil => exact ⟨rfl, (List.cons.inj h).2⟩
    | cons m ms =>
      rw [argumentChars, argumentChars, List.append_assoc] at h
      exact absurd ((hms m List.mem_cons_self).head h.symm) hparen
  | cons n ns =>
    obtain ⟨hn, hns⟩ := List.forall_mem_cons.1 hns
    cases ms with
    | nil =>
      rw [argumentChars, argumentChars, List.append_assoc] at h
      exact absurd (hn.1.head h) hparen
    | cons m ms =>
      obtain ⟨hm, hms⟩ := List.forall_mem_cons.1 hms
      simp only [argumentChars, List.append_assoc] at h
      obtain ⟨hfirst, h⟩ := hn.2 hm (stops_arguments ns s) (stops_arguments ms t) h
      obtain ⟨hrest, hend⟩ := arguments_inj (fun n hn => (hns n hn).2) hms h
      exact ⟨by rw [List.map_cons, List.map_cons, hfirst, hrest], hend⟩

theorem Readable.ofCall {arguments : List Node} (hplain : ∀ n ∈ arguments, n.Plain)
    (hread : ∀ n ∈ arguments, n.Readable) (function : ScalarFunction) :
    (ofCall function arguments).Readable := by
  intro m s t hm hs ht h
  have hopening := (Plain.call function hplain).opening_congr hm hs ht h
  obtain ⟨arguments', hplain', rfl⟩ := hm.of_opening_eq_scalar hopening
  simp only [keyChars_ofCall, List.append_assoc, List.cons_append, List.nil_append] at h
  obtain ⟨hall, hrest⟩ := argumentChars_inj (fun n hn => ⟨hplain n hn, hread n hn⟩) hplain'
    (List.cons.inj (List.append_cancel_left h)).2
  refine ⟨?_, hrest⟩
  rw [Node.ofCall, Node.ofCall, printed, printed, printedAll_eq_map, printedAll_eq_map, hall]

/-- A key is read in one way. -/
theorem Plain.readable (hn : n.Plain) : n.Readable := by
  induction hn with
  | constant v => exact readable_constant v
  | column hname => exact readable_ofColumn hname
  | binary op hl hr ihl ihr => exact Readable.ofBinary hl hr ihl ihr op
  | unary op ho ih => exact Readable.ofUnary ho ih op
  | call function harguments ih => exact Readable.ofCall harguments ih function
  | aggregate function ha ih => exact Readable.ofAggregate ha ih function
  | aggregateRows function => exact readable_ofAggregateRows function

end Node

end Columnar
