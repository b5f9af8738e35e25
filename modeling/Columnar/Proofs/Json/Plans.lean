import Columnar.Proofs.Compile
import Columnar.Proofs.Json.Values

/-!
# Plans from their documents

An expression's document takes two levels for each alternative with parts, and a third for a list of
arguments; the reader takes the same levels off what it is given. So it reads the document exactly
if the limit covers its depth, and it then has the expression: its parts are read one by one, and no
alternative is read as another.
-/

namespace Columnar

theorem map_ite_some {α β : Type} {p : Prop} [Decidable p] (f : α → β) (a : α) :
    (if p then some a else none).map f = if p then some (f a) else none := by
  split <;> rfl

/-! ### Operators and functions -/

theorem BinaryOp.ofJson?_tag (op : BinaryOp) (d : Nat) :
    ofJson? d (.ofString op.tag) = some op := by
  rcases op with op | op | op <;> cases op <;> rfl

theorem UnaryOp.ofJson?_tag (op : UnaryOp) (d : Nat) : ofJson? d (.ofString op.tag) = some op := by
  cases op <;> rfl

theorem AggregateFunction.ofJson?_tag (function : AggregateFunction) (d : Nat) :
    ofJson? d (.ofString function.tag) = some function := by
  cases function <;> rfl

/-! ### Expressions -/

namespace Expr

mutual

def hasFiniteFloats : Expr → Bool
  | literal value => value.isFinite
  | column _ | aggregateRows _ => true
  | binary left _ right => left.hasFiniteFloats && right.hasFiniteFloats
  | unary _ operand => operand.hasFiniteFloats
  | call _ arguments => allHaveFiniteFloats arguments
  | aggregate _ argument => argument.hasFiniteFloats
  | named inner _ => inner.hasFiniteFloats

def allHaveFiniteFloats : List Expr → Bool
  | [] => true
  | e :: rest => e.hasFiniteFloats && allHaveFiniteFloats rest

end

@[simp] theorem allHaveFiniteFloats_iff {es : List Expr} :
    allHaveFiniteFloats es = true ↔ ∀ e ∈ es, e.hasFiniteFloats = true := by
  induction es with
  | nil => simp [allHaveFiniteFloats]
  | cons e rest ih => simp [allHaveFiniteFloats, ih]

@[simp] theorem toJsonAll_eq_map (es : List Expr) : toJsonAll es = es.map toJson := by
  induction es with
  | nil => rfl
  | cons e rest ih => rw [toJsonAll, ih, List.map_cons]

theorem isText_toJson (e : Expr) : e.toJson.IsText := by
  induction e with
  | literal value => exact .object (by simpa using value.isText_toJson)
  | column name => exact .object (by simpa using .string name)
  | binary left op right hleft hright =>
    exact .object (by simpa using .object (by simpa using ⟨hleft, .string op.tag, hright⟩))
  | unary op operand ih =>
    exact .object (by simpa using .object (by simpa using ⟨.string op.tag, ih⟩))
  | call name arguments ih =>
    have harguments : (Json.array (arguments.map toJson)).IsText := .array (by simpa using ih)
    exact .object (by simpa using .object (by simpa using ⟨.string name, harguments⟩))
  | aggregate function argument ih =>
    exact .object (by simpa using .object (by simpa using ⟨.string function.tag, ih⟩))
  | aggregateRows function =>
    exact .object (by simpa using .object (by simpa using ⟨.string function.tag, .null⟩))
  | named inner name ih =>
    exact .object (by simpa using .object (by simpa using ⟨ih, .string name⟩))

/-- A list of arguments takes a level of its own. -/
def argumentsOfJson? : Nat → Json → Option (List Expr)
  | 0, _ => none
  | inner + 1, args => do (← args.elements?).mapM (ofJson? inner)

theorem ofJson?_variant (d : Nat) (name : String) (content : Json) :
    ofJson? (d + 2) (.variant name content) =
      ofAlternative? d (ofJson? d) (argumentsOfJson? d) name content := by
  cases d <;> rfl

/-- An alternative with parts is read with two levels more than its parts. -/
theorem ofJson?_of_parts {e : Expr} {name : String} {content : Json} {n : Nat}
    (hj : e.toJson = .variant name content) (hleaf : leafOfJson? 0 name content = none)
    (hdepth : content.depth = n + 1)
    (hparts : ∀ d, ofAlternative? d (ofJson? d) (argumentsOfJson? d) name content =
      if n ≤ d then some e else none) (d : Nat) :
    ofJson? d e.toJson = if e.toJson.depth ≤ d then some e else none := by
  have hwhole : e.toJson.depth = n + 2 := by rw [hj, Json.depth_variant, hdepth]
  rw [hwhole]
  rcases d with _ | _ | d
  · rfl
  · rw [if_neg (by omega), hj]
    exact hleaf
  · rw [hj, ofJson?_variant, hparts]
    simp

theorem argumentsOfJson?_toJson {arguments : List Expr}
    (h : ∀ e ∈ arguments, ∀ d, ofJson? d e.toJson = if e.toJson.depth ≤ d then some e else none)
    (d : Nat) : argumentsOfJson? d (.array (arguments.map toJson)) =
      if (Json.array (arguments.map toJson)).depth ≤ d then some arguments else none := by
  cases d with
  | zero => simp [argumentsOfJson?, Json.depth]
  | succ d =>
    have hall := mapM_eq_ite fun e he => h e he d
    have hdepth : (Json.array (arguments.map toJson)).depth ≤ d + 1 ↔
        ∀ e ∈ arguments, e.toJson.depth ≤ d := by
      rw [Json.depth, Nat.add_comm, Nat.add_le_add_iff_right, Json.depthOfElements_le_iff]
      simp
    simp only [hdepth]
    exact hall

/-! Each alternative is read from its own fields. -/

section

variable {part : Json → Option Expr} {arguments : Json → Option (List Expr)} {d : Nat}

theorem ofAlternative?_binary (l r : Json) (op : BinaryOp) :
    ofAlternative? d part arguments "Binary"
        (.ofMembers [("left", l), ("op", .ofString op.tag), ("right", r)]) = (do
      let left ← part l
      let right ← part r
      return binary left op right) := by
  change (do return binary (← part l) (← BinaryOp.ofJson? d (.ofString op.tag)) (← part r)) = _
  rw [BinaryOp.ofJson?_tag]
  rfl

theorem ofAlternative?_unary (operand : Json) (op : UnaryOp) :
    ofAlternative? d part arguments "Unary"
        (.ofMembers [("op", .ofString op.tag), ("operand", operand)]) =
      (part operand).map (unary op) := by
  change (do return unary (← UnaryOp.ofJson? d (.ofString op.tag)) (← part operand)) = _
  rw [UnaryOp.ofJson?_tag]
  cases part operand <;> rfl

theorem ofAlternative?_call (name : String) (args : Json) :
    ofAlternative? d part arguments "Function"
        (.ofMembers [("name", .ofString name), ("args", args)]) =
      (arguments args).map (call name) := by
  change (do return call name (← arguments args)) = _
  cases arguments args <;> rfl

theorem ofAlternative?_aggregateRows (function : AggregateFunction) :
    ofAlternative? d part arguments "Aggregate"
        (.ofMembers [("function", .ofString function.tag), ("arg", .null)]) =
      some (aggregateRows function) := by
  change (do return aggregateRows (← AggregateFunction.ofJson? d (.ofString function.tag))) = _
  rw [AggregateFunction.ofJson?_tag]
  rfl

theorem ofAlternative?_aggregate (function : AggregateFunction) (name : String) (content : Json) :
    ofAlternative? d part arguments "Aggregate"
        (.ofMembers [("function", .ofString function.tag), ("arg", .variant name content)]) =
      (part (.variant name content)).map (aggregate function) := by
  change (do
    let function ← AggregateFunction.ofJson? d (.ofString function.tag)
    return aggregate function (← part (.variant name content))) = _
  rw [AggregateFunction.ofJson?_tag]
  cases part (.variant name content) <;> rfl

theorem ofAlternative?_named (inner : Json) (name : String) :
    ofAlternative? d part arguments "Alias"
        (.ofMembers [("expr", inner), ("alias", .ofString name)]) =
      (part inner).map fun inner => named inner name := by
  change (do return named (← part inner) name) = _
  cases part inner <;> rfl

end

/-- Every expression is an alternative that carries something. -/
theorem exists_toJson_eq_variant (e : Expr) : ∃ name content, e.toJson = .variant name content := by
  cases e <;> exact ⟨_, _, rfl⟩

/-- An expression is read from its document exactly if the levels are there. -/
theorem ofJson?_toJson {e : Expr} (he : e.hasFiniteFloats = true) (d : Nat) :
    ofJson? d e.toJson = if e.toJson.depth ≤ d then some e else none := by
  induction e generalizing d with
  | literal value =>
    have hvalue : ∀ d, (Value.ofJson? d value.toJson).map literal =
        if value.toJson.depth ≤ d then some (literal value) else none := by
      intro d
      rw [Value.ofJson?_toJson he, map_ite_some]
    rw [toJson, Json.depth_variant]
    rcases d with _ | _ | d
    · rfl
    · exact (hvalue 0).trans (by simp)
    · rw [ofJson?_variant]
      exact (hvalue (d + 1)).trans (by simp)
  | column name =>
    rw [toJson, Json.depth_variant, Json.depth_ofString]
    rcases d with _ | _ | d
    · rfl
    · rfl
    · rw [ofJson?_variant, if_pos (by omega)]
      rfl
  | binary left op right hleft hright =>
    obtain ⟨hl, hr⟩ := Bool.and_eq_true_iff.1 he
    have hdepth : (Json.ofMembers [("left", left.toJson), ("op", .ofString op.tag),
        ("right", right.toJson)]).depth = max left.toJson.depth right.toJson.depth + 1 := by
      simp [Json.depth_ofMembers]
    refine ofJson?_of_parts rfl rfl hdepth (fun d => ?_) d
    rw [ofAlternative?_binary, hleft hl, hright hr]
    by_cases hleft : left.toJson.depth ≤ d <;> by_cases hright : right.toJson.depth ≤ d <;>
      simp [hleft, hright]
  | unary op operand ih =>
    have hdepth : (Json.ofMembers [("op", .ofString op.tag),
        ("operand", operand.toJson)]).depth = operand.toJson.depth + 1 := by
      simp [Json.depth_ofMembers]
    refine ofJson?_of_parts rfl rfl hdepth (fun d => ?_) d
    rw [ofAlternative?_unary, ih he, map_ite_some]
  | call name arguments ih =>
    have harguments := allHaveFiniteFloats_iff.1 he
    have hdepth : (Json.ofMembers [("name", .ofString name),
        ("args", .array (arguments.map toJson))]).depth =
          (Json.array (arguments.map toJson)).depth + 1 := by
      simp [Json.depth_ofMembers]
    refine ofJson?_of_parts (by rw [toJson, toJsonAll_eq_map]) rfl hdepth (fun d => ?_) d
    rw [ofAlternative?_call, argumentsOfJson?_toJson fun e he => ih e he (harguments e he),
      map_ite_some]
  | aggregate function argument ih =>
    have hdepth : (Json.ofMembers [("function", .ofString function.tag),
        ("arg", argument.toJson)]).depth = argument.toJson.depth + 1 := by
      simp [Json.depth_ofMembers]
    refine ofJson?_of_parts rfl rfl hdepth (fun d => ?_) d
    obtain ⟨name, content, hj⟩ := argument.exists_toJson_eq_variant
    rw [hj, ofAlternative?_aggregate, ← hj, ih he, map_ite_some]
  | aggregateRows function =>
    have hdepth : (Json.ofMembers [("function", .ofString function.tag),
        ("arg", .null)]).depth = 0 + 1 := by
      simp [Json.depth_ofMembers, Json.depth]
    refine ofJson?_of_parts rfl rfl hdepth (fun d => ?_) d
    rw [ofAlternative?_aggregateRows, if_pos (Nat.zero_le d)]
  | named inner name ih =>
    have hdepth : (Json.ofMembers [("expr", inner.toJson),
        ("alias", .ofString name)]).depth = inner.toJson.depth + 1 := by
      simp [Json.depth_ofMembers]
    refine ofJson?_of_parts rfl rfl hdepth (fun d => ?_) d
    rw [ofAlternative?_named, ih he, map_ite_some]

end Expr

/-! ### Plans -/

namespace Plan

def hasFiniteFloats (plan : Plan) : Bool := Expr.allHaveFiniteFloats plan.expressions

theorem isText_toJson (plan : Plan) : plan.toJson.IsText := by
  have hexpressions : (Json.array (plan.expressions.map Expr.toJson)).IsText :=
    .array (by simpa using fun e _ => e.isText_toJson)
  exact .object (by simpa using hexpressions)

theorem depth_toJson (plan : Plan) :
    plan.toJson.depth = Json.depthOfElements (plan.expressions.map Expr.toJson) + 2 := by
  rw [toJson, Json.depth_ofMembers, Expr.toJsonAll_eq_map]
  simp [Json.depth]
  omega

theorem ofJson?_toJson {plan : Plan} (hfinite : plan.hasFiniteFloats = true) (limit : Nat) :
    ofJson? limit plan.toJson = if plan.toJson.depth ≤ limit then some plan else none := by
  have hexpressions := Expr.allHaveFiniteFloats_iff.1 hfinite
  have hfields : plan.toJson.fields? ["expressions"] =
      some [some (.array (plan.expressions.map Expr.toJson))] := by
    rw [toJson, Expr.toJsonAll_eq_map]
    rfl
  rw [depth_toJson]
  rcases limit with _ | _ | limit
  · rfl
  · rw [if_neg (by omega)]
    rfl
  · have hall := mapM_eq_ite fun e he => Expr.ofJson?_toJson (hexpressions e he) limit
    have hread : ofJson? (limit + 2) plan.toJson =
        ((plan.expressions.map Expr.toJson).mapM (Expr.ofJson? limit)).map Plan.mk := by
      rw [ofJson?, hfields]
      change (do
        return Plan.mk (← (plan.expressions.map Expr.toJson).mapM (Expr.ofJson? limit))) = _
      cases (plan.expressions.map Expr.toJson).mapM (Expr.ofJson? limit) <;> rfl
    rw [hread, hall, map_ite_some]
    simp only [Nat.add_le_add_iff_right, Json.depthOfElements_le_iff, List.forall_mem_map]

/-- The text of a plan reads as the plan exactly if the limit covers its depth. -/
theorem bind_ofText?_text {plan : Plan} (hfinite : plan.hasFiniteFloats = true) (limit : Nat) :
    (Json.ofText? plan.toJson.text).bind (ofJson? limit) =
      if plan.toJson.depth ≤ limit then some plan else none := by
  rw [plan.isText_toJson.ofText?_text]
  exact ofJson?_toJson hfinite limit

end Plan

/-! ### Reading back -/

/-- What is read from the texts that are written, by a reader that lets so many objects and arrays
be open at once: a plan if its document nests no deeper, and every value, column and stored column,
with finite floats. -/
structure ReadsBack (limit : Nat) : Prop where
  plan : ∀ plan : Plan, plan.hasFiniteFloats = true →
    (Json.ofText? plan.toJson.text).bind (Plan.ofJson? limit) =
      if plan.toJson.depth ≤ limit then some plan else none
  value : ∀ v : Value, v.isFinite = true →
    (Json.ofText? v.toJson.text).bind (Value.ofJson? limit) = some v
  column : ∀ c : Column, (Json.ofText? c.toJson.text).bind (Column.ofJson? limit) = some c
  storage : ∀ values : List Value, (∀ v ∈ values, v.isFinite = true) →
    (Json.ofText? (Json.ofStorage values).text).bind (storageOfJson? limit) = some values

theorem readsBack_of_le {limit : Nat} (hlimit : 3 ≤ limit) : ReadsBack limit where
  plan _ hplan := Plan.bind_ofText?_text hplan limit
  value v hv := by
    rw [v.isText_toJson.ofText?_text]
    have hdepth : v.toJson.depth ≤ limit := (Value.depth_toJson_le hv).trans (by omega)
    exact (Value.ofJson?_toJson hv limit).trans (if_pos hdepth)
  column c := by
    obtain ⟨levels, rfl⟩ := Nat.exists_eq_add_of_le' hlimit
    rw [c.isText_toJson.ofText?_text]
    exact c.ofJson?_toJson (levels + 2)
  storage values hvalues := by
    obtain ⟨levels, rfl⟩ := Nat.exists_eq_add_of_le' hlimit
    rw [(Json.isText_ofStorage values).ofText?_text]
    exact storageOfJson?_ofStorage hvalues levels

/-- Documents read back under any limit that covers a stored column, and so under the one that
documents are read with here. -/
theorem readsBack : (∀ limit, 3 ≤ limit → ReadsBack limit) ∧ ReadsBack Json.maxDepth :=
  ⟨fun _ hlimit => readsBack_of_le hlimit, readsBack_of_le (by decide)⟩

/-- Every kind of expression, with escapes and the ends of the number ranges. -/
def planOfAllKinds : Plan :=
  ⟨[.named (.binary (.literal (.float64 (.ofInt (-3)))) (.arithmetic .div)
      (.aggregate .sum (.column "a\"\n"))) "ä\x01",
    .unary .neg (.literal (.int64 Int64.minValue)),
    .call "no function" [.literal (.date Int32.maxValue), .literal (.float32 (.zero true))],
    .call "" [], .aggregateRows .count, .literal .null]⟩

theorem readsBack_planOfAllKinds :
    planOfAllKinds.hasFiniteFloats = true ∧ 3 ≤ planOfAllKinds.toJson.depth ∧
      (Json.ofText? planOfAllKinds.toJson.text).bind
        (Plan.ofJson? planOfAllKinds.toJson.depth) = some planOfAllKinds ∧
      (Json.ofText? planOfAllKinds.toJson.text).bind (Plan.ofJson? Json.maxDepth) =
        some planOfAllKinds := by
  have hfinite : planOfAllKinds.hasFiniteFloats = true := by decide +kernel
  have hleast : 3 ≤ planOfAllKinds.toJson.depth := by decide +kernel
  have hmost : planOfAllKinds.toJson.depth ≤ Json.maxDepth := by decide +kernel
  exact ⟨hfinite, hleast,
    ((readsBack.1 _ hleast).plan planOfAllKinds hfinite).trans (if_pos (Nat.le_refl _)),
    (readsBack.2.plan planOfAllKinds hfinite).trans (if_pos hmost)⟩

def negations : Nat → Expr
  | 0 => .column "x"
  | n + 1 => .unary .neg (negations n)

/-- A plan without a single float whose document nests deeper than documents may. -/
theorem readsBack_negations_eq_none :
    (⟨[negations 63]⟩ : Plan).hasFiniteFloats = true ∧
      (Json.ofText? (⟨[negations 63]⟩ : Plan).toJson.text).bind (Plan.ofJson? Json.maxDepth) ≠
        some ⟨[negations 63]⟩ := by
  have hfinite : (⟨[negations 63]⟩ : Plan).hasFiniteFloats = true := by decide +kernel
  have hdepth : ¬ (⟨[negations 63]⟩ : Plan).toJson.depth ≤ Json.maxDepth := by decide +kernel
  refine ⟨hfinite, ?_⟩
  rw [Plan.bind_ofText?_text hfinite, if_neg hdepth]
  exact (Option.some_ne_none _).symm

end Columnar
