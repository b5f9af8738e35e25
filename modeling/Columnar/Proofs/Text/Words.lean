import Mathlib.Data.List.TakeWhile

/-!
# Words

The text of an expression consists of words and of marks between them. A word goes on as long as
there are letters, digits, underscores, points and minus signs, so where the first word of a text
ends is settled by the text (`words_inj`). A column name that is an identifier is a single word, and
not one that stands for a value or has a meaning of its own.
-/

namespace Columnar

namespace Text

/-! ### The first word of a text -/

def isWordChar (c : Char) : Bool := c.isAlphanum || c == '_' || c == '.' || c == '-'

theorem isWordChar_of_isDigit {c : Char} (h : c.isDigit = true) : isWordChar c = true := by
  simp [isWordChar, Char.isAlphanum, h]

/-- The word a text begins with, which is empty before a mark. -/
def firstWord (t : List Char) : List Char := t.takeWhile isWordChar

def afterFirstWord (t : List Char) : List Char := t.dropWhile isWordChar

/-- No word goes on at the start of the text. -/
def EndsWord (t : List Char) : Prop := ∀ c ∈ t.head?, isWordChar c = false

theorem endsWord_cons {c : Char} {t : List Char} (hc : isWordChar c = false) :
    EndsWord (c :: t) := by
  intro d hd
  obtain rfl := Option.some.inj hd
  exact hc

variable {p : Char → Bool} {u v s t : List Char}

theorem takeWhile_append (hu : ∀ c ∈ u, p c = true) (hs : ∀ c ∈ s.head?, p c = false) :
    (u ++ s).takeWhile p = u := by
  rw [List.takeWhile_append_of_pos hu]
  cases s with
  | nil => exact List.append_nil u
  | cons c rest => rw [List.takeWhile_cons_of_neg (by simp [hs c rfl]), List.append_nil]

theorem dropWhile_append (hu : ∀ c ∈ u, p c = true) (hs : ∀ c ∈ s.head?, p c = false) :
    (u ++ s).dropWhile p = s := by
  rw [List.dropWhile_append_of_pos hu]
  cases s with
  | nil => rfl
  | cons c rest => rw [List.dropWhile_cons_of_neg (by simp [hs c rfl])]

/-- A longest run of characters and what follows it are told apart in one way. -/
theorem run_inj (hu : ∀ c ∈ u, p c = true) (hv : ∀ c ∈ v, p c = true)
    (hs : ∀ c ∈ s.head?, p c = false) (ht : ∀ c ∈ t.head?, p c = false) (h : u ++ s = v ++ t) :
    u = v ∧ s = t := by
  constructor
  · rw [← takeWhile_append hu hs, h, takeWhile_append hv ht]
  · rw [← dropWhile_append hu hs, h, dropWhile_append hv ht]

theorem firstWord_append (hu : ∀ c ∈ u, isWordChar c = true) (hs : EndsWord s) :
    firstWord (u ++ s) = u :=
  takeWhile_append hu hs

theorem afterFirstWord_append (hu : ∀ c ∈ u, isWordChar c = true) (hs : EndsWord s) :
    afterFirstWord (u ++ s) = s :=
  dropWhile_append hu hs

theorem words_inj (hu : ∀ c ∈ u, isWordChar c = true) (hv : ∀ c ∈ v, isWordChar c = true)
    (hs : EndsWord s) (ht : EndsWord t) (h : u ++ s = v ++ t) : u = v ∧ s = t :=
  run_inj hu hv hs ht h

theorem isWordChar_head (hu : ∀ c ∈ u, isWordChar c = true) (hne : u ≠ []) {c : Char}
    (h : u ++ s = c :: t) : isWordChar c = true := by
  obtain ⟨d, rest, rfl⟩ := List.exists_cons_of_ne_nil hne
  obtain ⟨rfl, -⟩ := List.cons.inj h
  exact hu d List.mem_cons_self

/-- What may stand after an expression in the text of another one, or the end. -/
def Stops : List Char → Prop
  | [] => True
  | c :: _ => c = ' ' ∨ c = ',' ∨ c = ')'

theorem stops_nil : Stops [] := trivial

theorem stops_space (t : List Char) : Stops (' ' :: t) := .inl rfl

theorem stops_comma (t : List Char) : Stops (',' :: t) := .inr (.inl rfl)

theorem stops_paren (t : List Char) : Stops (')' :: t) := .inr (.inr rfl)

theorem Stops.endsWord (h : Stops s) : EndsWord s := by
  cases s with
  | nil => simp [EndsWord]
  | cons c rest =>
    refine endsWord_cons ?_
    obtain rfl | rfl | rfl := h <;> rfl

theorem Stops.head?_ne (h : Stops s) {c : Char} (hc : c ∉ [' ', ',', ')']) : s.head? ≠ some c := by
  cases s with
  | nil => simp
  | cons d rest =>
    intro hd
    obtain rfl := Option.some.inj hd
    obtain rfl | rfl | rfl := h <;> exact absurd hc (by decide)

/-- The word before the parenthesis that a text opens with, where it does. -/
def opening (t : List Char) : Option (List Char) :=
  if (afterFirstWord t).head? = some '(' then some (firstWord t) else none

theorem opening_append_paren (hu : ∀ c ∈ u, isWordChar c = true) :
    opening (u ++ '(' :: t) = some u := by
  have hparen : EndsWord ('(' :: t) := endsWord_cons rfl
  rw [opening, afterFirstWord_append hu hparen, firstWord_append hu hparen]
  exact if_pos rfl

theorem opening_append (hu : ∀ c ∈ u, isWordChar c = true) (hs : EndsWord s)
    (hparen : s.head? ≠ some '(') : opening (u ++ s) = none := by
  rw [opening, afterFirstWord_append hu hs, if_neg hparen]

/-! ### Identifiers -/

/-- The words that stand for a value or have a meaning of their own. -/
def reservedWords : List String :=
  ["TRUE", "FALSE", "NULL", "NaN", "inf", "NOT", "AND", "OR", "DATE", "TIMESTAMP"]

/-- Letters, digits, underscores and points, beginning with a letter or an underscore, that are no
reserved word. -/
def Identifier (name : String) : Prop :=
  (name.toList.head?.any fun c => c.isAlpha || c == '_') = true ∧
  (name.toList.all fun c => c.isAlphanum || c == '_' || c == '.') = true ∧ name ∉ reservedWords

instance (name : String) : Decidable (Identifier name) := inferInstanceAs (Decidable (_ ∧ _ ∧ _))

variable {name : String}

theorem Identifier.isWordChar (h : Identifier name) {c : Char} (hc : c ∈ name.toList) :
    isWordChar c = true := by
  have hall := List.all_eq_true.1 h.2.1 c hc
  simp only [Bool.or_eq_true] at hall
  simp only [Text.isWordChar, Bool.or_eq_true]
  exact .inl hall

theorem Identifier.ne_nil (h : Identifier name) : name.toList ≠ [] := by
  intro hnil
  have hfirst := h.1
  rw [hnil] at hfirst
  cases hfirst

theorem Identifier.ne_reserved (h : Identifier name) (word : String)
    (hword : word ∈ reservedWords) : name.toList ≠ word.toList := by
  intro heq
  exact h.2.2 (String.toList_injective heq ▸ hword)

theorem not_isDigit_of_isAlpha {c : Char} (h : c.isAlpha = true) : c.isDigit = false := by
  refine Bool.eq_false_iff.2 fun hdigit => ?_
  have hle : c.val.toNat ≤ 57 := (Char.isDigit_iff_toNat.1 hdigit).2
  have hletter : (c.isUpper || c.isLower) = true := h
  rcases Bool.or_eq_true_iff.1 hletter with hupper | hlower
  · have hrange : 'A'.val ≤ c.val ∧ c.val ≤ 'Z'.val := of_decide_eq_true hupper
    have hlow : 65 ≤ c.val.toNat := UInt32.le_iff_toNat_le.1 hrange.1
    omega
  · have hrange : 'a'.val ≤ c.val := of_decide_eq_true (Bool.and_eq_true_iff.1 hlower).1
    have hlow : 97 ≤ c.val.toNat := UInt32.le_iff_toNat_le.1 hrange
    omega

/-- An identifier begins neither like a number nor with a sign. -/
theorem Identifier.head (h : Identifier name) {c : Char} {rest : List Char}
    (hname : name.toList = c :: rest) : c.isDigit = false ∧ c ≠ '-' := by
  have hfirst := h.1
  rw [hname] at hfirst
  simp only [List.head?_cons, Option.any_some, Bool.or_eq_true, beq_iff_eq] at hfirst
  rcases hfirst with halpha | rfl
  · refine ⟨not_isDigit_of_isAlpha halpha, ?_⟩
    rintro rfl
    exact absurd halpha (by decide)
  · exact ⟨by decide, by decide⟩

end Text

end Columnar
