import Columnar.Json.Decode
import Columnar.Proofs.Json.Reader
import Columnar.Proofs.Text.Numerals

/-!
# Values and columns from their documents

Each alternative has a tag of its own, each field a name of its own, and integers and finite floats
are read as they are written. What a document needs in levels is its depth, and it is read exactly
if it has them.
-/

namespace Columnar

theorem Numeral.int?_ofInt (n : Int) : (Numeral.ofInt n).int? = some n := by
  simp only [ofInt, int?, Nat.ofDigitChars_ten_toDigits, decide_eq_true_eq]
  split_ifs with hnegative hzero
  · omega
  · exact congrArg some (by omega)
  · exact congrArg some (by omega)

/-! ### Depth -/

namespace Json

mutual

/-- How many objects and arrays are open at once at most. -/
def depth : Json → Nat
  | null | bool _ | number _ | string _ => 0
  | array elements => 1 + depthOfElements elements
  | object members => 1 + depthOfMembers members

def depthOfElements : List Json → Nat
  | [] => 0
  | e :: rest => max e.depth (depthOfElements rest)

def depthOfMembers : List (Option String × Json) → Nat
  | [] => 0
  | m :: rest => max (depthOfMember m) (depthOfMembers rest)

def depthOfMember : Option String × Json → Nat
  | (_, value) => value.depth

end

@[simp] theorem depth_ofString (s : String) : (ofString s).depth = 0 := by
  rw [ofString, depth]

def depthOfPairs (members : List (String × Json)) : Nat :=
  depthOfMembers (members.map fun m => (some m.1, m.2))

theorem depth_ofMembers (members : List (String × Json)) :
    (ofMembers members).depth = depthOfPairs members + 1 := by
  rw [ofMembers, depth, Nat.add_comm]
  rfl

@[simp] theorem depthOfPairs_nil : depthOfPairs [] = 0 := rfl

@[simp] theorem depthOfPairs_cons (m : String × Json) (members : List (String × Json)) :
    depthOfPairs (m :: members) = max m.2.depth (depthOfPairs members) := rfl

@[simp] theorem depth_variant (name : String) (content : Json) :
    (variant name content).depth = content.depth + 1 := by
  simp [variant, depth_ofMembers]

theorem depthOfElements_le_iff {elements : List Json} {d : Nat} :
    depthOfElements elements ≤ d ↔ ∀ e ∈ elements, e.depth ≤ d := by
  induction elements with
  | nil => simp [depthOfElements]
  | cons e rest ih => simp [depthOfElements, ih]

/-! ### Numbers -/

theorem int?_ofInt {n least greatest : Int} (hlow : least ≤ n) (hhigh : n ≤ greatest) :
    (ofInt n).int? least greatest = some n := by
  change (Numeral.ofInt n).int?.filter _ = _
  simp [Numeral.int?_ofInt, hlow, hhigh]

theorem int64?_ofInt (n : Int64) : (ofInt n.toInt).int64? = some n := by
  have hhigh : n.toInt ≤ Int64.maxValue.toInt := Int.le_of_lt_add_one n.toInt_lt
  rw [int64?, int?_ofInt (Int64.toInt_minValue ▸ n.le_toInt) hhigh]
  simp

theorem int32?_ofInt (n : Int32) : (ofInt n.toInt).int32? = some n := by
  have hhigh : n.toInt ≤ Int32.maxValue.toInt := Int.le_of_lt_add_one n.toInt_lt
  rw [int32?, int?_ofInt (Int32.toInt_minValue ▸ n.le_toInt) hhigh]
  simp

end Json

def Floating.isFinite {f : FloatFormat} : Floating f → Bool
  | nan => false
  | number _ code _ => decide (code < f.infinityCode)

def Value.isFinite : Value → Bool
  | float32 x => x.isFinite
  | float64 x => x.isFinite
  | _ => true

namespace Json

variable {f : FloatFormat} {layout : Numeral.Layout}

theorem ofFloat_eq_number {negative : Bool} {code : Nat} {bounded : code ≤ f.infinityCode}
    (hfinite : code < f.infinityCode) :
    ofFloat layout (.number negative code bounded : Floating f) =
      number (layout.shortest f negative code) :=
  if_neg (Nat.ne_of_lt hfinite)

/-- A finite float is read from its shortest decimal. -/
theorem float?_ofFloat (hlayout : layout.IsNarrow) (hf : f.IsStandard) {x : Floating f}
    (hx : x.isFinite = true) : (ofFloat layout x).float? = some x := by
  cases x with
  | nan => cases hx
  | number negative code bounded =>
    have hfinite : code < f.infinityCode := of_decide_eq_true hx
    have hread := hlayout.readDecimal_shortest hf negative hfinite
    have hint : (layout.shortest f negative code).int? = none := by
      unfold Numeral.Layout.shortest
      split <;> exact layout.int?_numeral negative _
    have hnegative : (layout.shortest f negative code).negative = negative := by
      unfold Numeral.Layout.shortest
      split <;> exact layout.negative_numeral negative _
    rw [ofFloat_eq_number hfinite]
    unfold float?
    dsimp only
    rw [hint]
    simp only [Option.filter_none, hread, if_neg (Nat.ne_of_lt hfinite), hnegative,
      Floating.ofDecimal]

theorem ofFloat_ne_null {x : Floating f} (hx : x.isFinite = true) :
    (ofFloat layout x).depth = 0 ∧ ofFloat layout x ≠ .null := by
  cases x with
  | nan => cases hx
  | number negative code bounded =>
    rw [ofFloat_eq_number (of_decide_eq_true hx)]
    exact ⟨by rw [depth], by simp⟩

theorem isText_ofFloat (layout : Numeral.Layout) (x : Floating f) :
    (ofFloat layout x).IsText := by
  cases x with
  | nan => exact .null
  | number negative code bounded =>
    unfold ofFloat
    dsimp only
    split
    · exact .null
    · exact .number (layout.isJson_shortest f negative code)

end Json

/-! ### Values -/

theorem DataType.byTag_tag (t : DataType) : byTag DataType.tag DataType.all t.tag = some t := by
  cases t <;> decide

/-- The document of what a value holds, unless it is a null. -/
def Value.content : Value → Json
  | int64 n => .ofInt n.toInt
  | float32 x => .ofFloat singleLayout x
  | float64 x => .ofFloat doubleLayout x
  | bool b => .bool b
  | string s => .ofString s
  | date days => .ofInt days.toInt
  | timestamp micros => .ofInt micros.toInt
  | null => .null

theorem singleLayout_isNarrow : singleLayout.IsNarrow := ⟨by decide, by decide⟩

theorem doubleLayout_isNarrow : doubleLayout.IsNarrow := ⟨by decide, by decide⟩

namespace Value

variable {v : Value}

theorem toJson_of_ne_null (h : v ≠ null) : v.toJson = .variant v.dataType.tag v.content := by
  cases v <;> first | rfl | exact absurd rfl h

theorem ofContent?_content (hv : v.isFinite = true) (h : v ≠ null) :
    ofContent? v.dataType v.content = some v := by
  cases v with
  | int64 n => exact congrArg (Option.map int64) (Json.int64?_ofInt n)
  | timestamp n => exact congrArg (Option.map timestamp) (Json.int64?_ofInt n)
  | date n => exact congrArg (Option.map date) (Json.int32?_ofInt n)
  | float32 x =>
    exact congrArg (Option.map float32) (Json.float?_ofFloat singleLayout_isNarrow .single hv)
  | float64 x =>
    exact congrArg (Option.map float64) (Json.float?_ofFloat doubleLayout_isNarrow .double hv)
  | bool b => rfl
  | string s => rfl
  | null => exact absurd rfl h

theorem content_ne_null (hv : v.isFinite = true) (h : v ≠ null) :
    v.content.depth = 0 ∧ v.content ≠ .null := by
  cases v with
  | float32 x => exact Json.ofFloat_ne_null hv
  | float64 x => exact Json.ofFloat_ne_null hv
  | null => exact absurd rfl h
  | _ => simp [content, Json.ofInt, Json.ofString, Json.depth]

theorem ofJson?_toJson (hv : v.isFinite = true) (d : Nat) :
    ofJson? d v.toJson = if v.toJson.depth ≤ d then some v else none := by
  by_cases hnull : v = null
  · subst hnull
    rfl
  · obtain ⟨hdepth, hcontent⟩ := content_ne_null hv hnull
    rw [toJson_of_ne_null hnull, Json.depth_variant, hdepth]
    have hunit : (Json.variant v.dataType.tag v.content).unitVariant? d = none := by
      simp [Json.variant, Json.ofMembers, Json.unitVariant?, hcontent]
    have honly : (Json.variant v.dataType.tag v.content).onlyMember? =
        some (v.dataType.tag, v.content) := rfl
    unfold ofJson?
    rw [hunit, honly]
    cases d with
    | zero => rfl
    | succ d => simp [DataType.byTag_tag, ofContent?_content hv hnull]

theorem depth_toJson_le (hv : v.isFinite = true) : v.toJson.depth ≤ 1 := by
  by_cases hnull : v = null
  · subst hnull
    exact Nat.zero_le 1
  · rw [toJson_of_ne_null hnull, Json.depth_variant, (content_ne_null hv hnull).1]

theorem isText_toJson (v : Value) : v.toJson.IsText := by
  have hcontent : v.content.IsText := by
    cases v with
    | int64 n => exact .number (Numeral.isJson_ofInt n.toInt)
    | timestamp n => exact .number (Numeral.isJson_ofInt n.toInt)
    | date n => exact .number (Numeral.isJson_ofInt n.toInt)
    | float32 x => exact Json.isText_ofFloat singleLayout x
    | float64 x => exact Json.isText_ofFloat doubleLayout x
    | bool b => exact .bool b
    | string s => exact .string s
    | null => exact .null
  by_cases hnull : v = null
  · subst hnull
    exact .string _
  · rw [toJson_of_ne_null hnull]
    exact .object (by simpa using hcontent)

end Value

/-! ### Columns -/

theorem DataType.ofJson?_toJson (t : DataType) (d : Nat) : ofJson? d t.toJson = some t :=
  byTag_tag t

theorem Column.isText_toJson (c : Column) : c.toJson.IsText :=
  .object (by simp [DataType.toJson, Json.IsText.string])

theorem Column.ofJson?_toJson (c : Column) (d : Nat) :
    ofJson? (d + 1) c.toJson = some c := by
  have hfields : c.toJson.fields? ["name", "data_type"] =
      some [some (.ofString c.name), some c.dataType.toJson] := by
    rfl
  rw [ofJson?, hfields]
  simp [DataType.ofJson?_toJson, Json.text?, Json.ofString]

theorem mapM_eq_ite {α β : Type} {read : β → Option α} {write : α → β} {p : α → Prop}
    [DecidablePred p] {l : List α}
    (h : ∀ a ∈ l, read (write a) = if p a then some a else none) :
    (l.map write).mapM read = if ∀ a ∈ l, p a then some l else none := by
  induction l with
  | nil => rfl
  | cons a rest ih =>
    obtain ⟨ha, hrest⟩ := List.forall_mem_cons.1 h
    rw [List.map_cons, List.mapM_cons, ha, ih hrest]
    by_cases hp : p a
    · by_cases hall : ∀ b ∈ rest, p b
      · rw [if_pos hp, if_pos hall, if_pos (List.forall_mem_cons.2 ⟨hp, hall⟩)]
        rfl
      · rw [if_pos hp, if_neg hall, if_neg fun h => hall (List.forall_mem_cons.1 h).2]
        rfl
    · rw [if_neg hp, if_neg fun h => hp (List.forall_mem_cons.1 h).1]
      rfl

theorem Json.isText_ofStorage (values : List Value) : (Json.ofStorage values).IsText :=
  .object (by simpa using .array (by simpa using fun v _ => v.isText_toJson))

theorem storageOfJson?_ofStorage {values : List Value} (h : ∀ v ∈ values, v.isFinite = true)
    (d : Nat) : storageOfJson? (d + 3) (Json.ofStorage values) = some values := by
  have hfields : (Json.ofStorage values).fields? ["data"] =
      some [some (.array (values.map Value.toJson))] := by
    rfl
  have hvalues : (values.map Value.toJson).mapM (Value.ofJson? (d + 1)) =
      if ∀ v ∈ values, v.toJson.depth ≤ d + 1 then some values else none :=
    mapM_eq_ite fun v hv => Value.ofJson?_toJson (h v hv) (d + 1)
  have hdepth : ∀ v ∈ values, v.toJson.depth ≤ d + 1 :=
    fun v hv => (Value.depth_toJson_le (h v hv)).trans (Nat.le_add_left 1 d)
  rw [if_pos hdepth] at hvalues
  rw [storageOfJson?, hfields]
  exact hvalues

end Columnar
