import Columnar.Proofs.Json.Tokens

/-!
# Reading documents back

The text of a document reads as the document, with whatever follows it left over (`IsText.reads`),
if its numerals are numbers of JSON and its strings have contents. A step of the reader takes at
least one character of the text or a comma before it, so twice the length is fuel enough.
-/

namespace Columnar.Json

/-- Documents that are the reading of their own text. -/
inductive IsText : Json → Prop where
  | null : IsText .null
  | bool (b : Bool) : IsText (.bool b)
  | number {n : Numeral} (hn : n.IsJson) : IsText (.number n)
  | string (s : String) : IsText (.ofString s)
  | array {elements : List Json} (h : ∀ e ∈ elements, IsText e) : IsText (.array elements)
  | object {members : List (String × Json)} (h : ∀ m ∈ members, IsText m.2) :
      IsText (.ofMembers members)

def Reads (j : Json) : Prop :=
  ∀ fuel rest, 2 * j.text.length ≤ fuel → Ends rest →
    readValue fuel (j.text ++ rest) = some (j, rest)

variable {j : Json} {rest : List Char}

/-! ### Texts -/

@[simp] theorem elementTexts_eq_map (elements : List Json) :
    elementTexts elements = elements.map text := by
  induction elements with
  | nil => rfl
  | cons e elements ih => rw [elementTexts, ih, List.map_cons]

@[simp] theorem memberTexts_eq_map (members : List (Option String × Json)) :
    memberTexts members = members.map memberText := by
  induction members with
  | nil => rfl
  | cons m members ih => rw [memberTexts, ih, List.map_cons]

theorem commaSeparated_cons_cons (t u : List Char) (ts : List (List Char)) :
    commaSeparated (t :: u :: ts) = t ++ ',' :: commaSeparated (u :: ts) := rfl

theorem ne_of_beginsNumber {c bad : Char} (hc : (c == '-' || c.isDigit) = true)
    (hbad : (bad == '-' || bad.isDigit) = false := by decide) : c ≠ bad := by
  rintro rfl
  rw [hc] at hbad
  cases hbad

theorem skipBlanks_cons {c : Char} (hc : isBlank c = false) (cs : List Char) :
    skipBlanks (c :: cs) = c :: cs := by
  simp [skipBlanks, hc]

theorem isBlank_of_beginsNumber {c : Char} (hc : (c == '-' || c.isDigit) = true) :
    isBlank c = false := by
  rw [Bool.eq_false_iff]
  intro hblank
  simp only [isBlank, Bool.or_eq_true, decide_eq_true_eq] at hblank
  rcases hblank with ((rfl | rfl) | rfl) | rfl <;> exact absurd hc (by decide)

/-- A text begins with a character that neither is skipped nor closes an array. -/
theorem IsText.exists_text_eq_cons (h : IsText j) :
    ∃ c cs, j.text = c :: cs ∧ isBlank c = false ∧ c ≠ ']' := by
  cases h with
  | null => exact ⟨'n', _, rfl, by decide, by decide⟩
  | bool b => cases b <;> exact ⟨_, _, rfl, by decide, by decide⟩
  | string s => exact ⟨'"', _, rfl, by decide, by decide⟩
  | array => exact ⟨'[', _, rfl, by decide, by decide⟩
  | object => exact ⟨'\x7b', _, rfl, by decide, by decide⟩
  | number hn =>
    obtain ⟨c, cs, htext, hc⟩ := Json.exists_text_eq_cons hn
    exact ⟨c, cs, htext, isBlank_of_beginsNumber hc, ne_of_beginsNumber hc⟩

/-! ### Tokens -/

theorem readValue_number {c : Char} (hc : (c == '-' || c.isDigit) = true) (fuel : Nat)
    (cs : List Char) : readValue (fuel + 1) (c :: cs) = readNumber (c :: cs) := by
  rw [readValue, skipBlanks_cons (isBlank_of_beginsNumber hc)]
  split
  case h_1 hnil => cases hnil
  case h_8 => rfl
  all_goals
    next hcons =>
      obtain ⟨rfl, -⟩ := List.cons.inj hcons
      exact absurd hc (by decide)

theorem reads_number {n : Numeral} (hn : n.IsJson) : Reads (number n) := by
  intro fuel rest hfuel hrest
  obtain ⟨c, cs, htext, hc⟩ := exists_text_eq_cons hn
  have hread := readNumber_append hn (hrest.avoids continuesNumber)
  change 2 * (n.text true).length ≤ fuel at hfuel
  change readValue fuel (n.text true ++ rest) = _
  rw [htext] at hread hfuel ⊢
  obtain ⟨fuel, rfl⟩ := Nat.exists_eq_add_one.2 (show 0 < fuel by simp at hfuel; omega)
  rw [List.cons_append] at hread ⊢
  rw [readValue_number hc, hread]

theorem reads_string (s : String) : Reads (ofString s) := by
  intro fuel rest hfuel _
  obtain ⟨fuel, rfl⟩ := Nat.exists_eq_add_one.2
    (show 0 < fuel by simp [ofString, text, stringText] at hfuel; omega)
  have htext : (ofString s).text ++ rest = '"' :: (s.toList.flatMap escape ++ '"' :: rest) := by
    simp [ofString, text, stringText]
  rw [htext, readValue, skipBlanks_cons (by decide)]
  simp [readContent_stringText, ofString]

/-! ### Parts -/

/-- The elements of an array are read, each from its text. -/
theorem readElements_texts {elements : List Json} (hne : elements ≠ [])
    (h : ∀ e ∈ elements, Reads e) (rest : List Char) {fuel : Nat}
    (hfuel : 2 * (commaSeparated (elements.map text)).length < fuel) :
    readElements fuel (commaSeparated (elements.map text) ++ ']' :: rest) =
      some (elements, rest) := by
  induction elements generalizing fuel with
  | nil => exact absurd rfl hne
  | cons e elements ih =>
    obtain ⟨fuel, rfl⟩ := Nat.exists_eq_add_one.2 (Nat.zero_lt_of_lt hfuel)
    obtain ⟨he, helements⟩ := List.forall_mem_cons.1 h
    cases elements with
    | nil =>
      have hread := he fuel (']' :: rest) (by simpa [commaSeparated] using Nat.le_of_lt_succ hfuel)
        (by simp [Ends])
      simp only [List.map_cons, List.map_nil, commaSeparated, readElements, hread,
        Option.bind_eq_bind, Option.bind_some, skipBlanks_cons (show isBlank ']' = false by decide)]
      rfl
    | cons e' elements =>
      simp only [List.map_cons, commaSeparated_cons_cons, List.length_append,
        List.length_cons] at hfuel
      have hread := he fuel (',' :: (commaSeparated ((e' :: elements).map text) ++ ']' :: rest))
        (by omega) (by simp [Ends])
      have hrest := ih (List.cons_ne_nil _ _) helements
        (show 2 * (commaSeparated ((e' :: elements).map text)).length < fuel by
          simp only [List.map_cons]; omega)
      rw [List.map_cons, List.map_cons, commaSeparated_cons_cons, List.append_assoc,
        List.cons_append, ← List.map_cons]
      simp only [readElements, hread, Option.bind_eq_bind, Option.bind_some,
        skipBlanks_cons (show isBlank ',' = false by decide), hrest]
      rfl

def pairText (m : String × Json) : List Char := stringText m.1.toList ++ ':' :: m.2.text

theorem text_ofMembers (members : List (String × Json)) :
    (ofMembers members).text = '\x7b' :: commaSeparated (members.map pairText) ++ ['\x7d'] := by
  rw [ofMembers, text, memberTexts_eq_map, List.map_map]
  rfl

/-- A key is read with its colon, then the value, and then what closes the object. -/
theorem readMembers_last {m : String × Json} {fuel : Nat} {rest : List Char}
    (hread : readValue fuel (m.2.text ++ '\x7d' :: rest) = some (m.2, '\x7d' :: rest)) :
    readMembers (fuel + 1) (pairText m ++ '\x7d' :: rest) = some ([(some m.1, m.2)], rest) := by
  have htext : pairText m ++ '\x7d' :: rest =
      '"' :: (m.1.toList.flatMap escape ++ '"' :: ':' :: (m.2.text ++ '\x7d' :: rest)) := by
    simp [pairText, stringText]
  rw [htext, readMembers, skipBlanks_cons (by decide)]
  simp only [readContent_stringText, Option.bind_eq_bind, Option.bind_some,
    skipBlanks_cons (show isBlank ':' = false by decide), hread,
    skipBlanks_cons (show isBlank '\x7d' = false by decide)]
  rfl

theorem readMembers_next {m : String × Json} {fuel : Nat} {more : List Char}
    (hread : readValue fuel (m.2.text ++ ',' :: more) = some (m.2, ',' :: more)) :
    readMembers (fuel + 1) (pairText m ++ ',' :: more) =
      (readMembers fuel more).map fun found => ((some m.1, m.2) :: found.1, found.2) := by
  have htext : pairText m ++ ',' :: more =
      '"' :: (m.1.toList.flatMap escape ++ '"' :: ':' :: (m.2.text ++ ',' :: more)) := by
    simp [pairText, stringText]
  rw [htext, readMembers, skipBlanks_cons (by decide)]
  simp only [readContent_stringText, Option.bind_eq_bind, Option.bind_some,
    skipBlanks_cons (show isBlank ':' = false by decide), hread,
    skipBlanks_cons (show isBlank ',' = false by decide)]
  cases readMembers fuel more <;> rfl

/-- The members of an object are read, each from its key and its text. -/
theorem readMembers_texts {members : List (String × Json)} (hne : members ≠ [])
    (h : ∀ m ∈ members, Reads m.2) (rest : List Char) {fuel : Nat}
    (hfuel : 2 * (commaSeparated (members.map pairText)).length < fuel) :
    readMembers fuel (commaSeparated (members.map pairText) ++ '\x7d' :: rest) =
      some (members.map fun m => (some m.1, m.2), rest) := by
  induction members generalizing fuel with
  | nil => exact absurd rfl hne
  | cons m members ih =>
    obtain ⟨fuel, rfl⟩ := Nat.exists_eq_add_one.2 (Nat.zero_lt_of_lt hfuel)
    obtain ⟨hm, hmembers⟩ := List.forall_mem_cons.1 h
    have hlength : m.2.text.length ≤ (pairText m).length := by
      simp [pairText]
      omega
    cases members with
    | nil =>
      have hread := hm fuel ('\x7d' :: rest) (by simp [commaSeparated] at hfuel; omega)
        (by simp [Ends])
      exact readMembers_last hread
    | cons m' members =>
      simp only [List.map_cons, commaSeparated_cons_cons, List.length_append,
        List.length_cons] at hfuel
      have hread := hm fuel
        (',' :: (commaSeparated ((m' :: members).map pairText) ++ '\x7d' :: rest))
        (by omega) (by simp [Ends])
      have hrest := ih (List.cons_ne_nil _ _) hmembers
        (show 2 * (commaSeparated ((m' :: members).map pairText)).length < fuel by
          simp only [List.map_cons]; omega)
      rw [List.map_cons, List.map_cons, commaSeparated_cons_cons, List.append_assoc,
        List.cons_append, ← List.map_cons, readMembers_next hread, hrest]
      rfl

/-! ### Documents -/

theorem exists_commaSeparated_eq_cons {t cs : List Char} {c : Char} (h : t = c :: cs)
    (ts : List (List Char)) : ∃ cs, commaSeparated (t :: ts) = c :: cs := by
  subst h
  cases ts <;> exact ⟨_, rfl⟩

theorem reads_array {elements : List Json} (htext : ∀ e ∈ elements, IsText e)
    (h : ∀ e ∈ elements, Reads e) : Reads (array elements) := by
  intro fuel rest hfuel _
  have hwhole : (array elements).text ++ rest =
      '[' :: (commaSeparated (elements.map text) ++ ']' :: rest) := by simp [text]
  rw [text, elementTexts_eq_map] at hfuel
  simp only [List.length_append, List.length_cons, List.length_nil] at hfuel
  obtain ⟨fuel, rfl⟩ := Nat.exists_eq_add_one.2 (show 0 < fuel by omega)
  rw [hwhole, readValue, skipBlanks_cons (by decide)]
  cases elements with
  | nil => rfl
  | cons e elements =>
    obtain ⟨c, cs, hcons, hblank, hclose⟩ := (htext e List.mem_cons_self).exists_text_eq_cons
    have hread := readElements_texts (List.cons_ne_nil e elements) h rest
      (show 2 * (commaSeparated ((e :: elements).map text)).length < fuel by omega)
    obtain ⟨cs', hcons'⟩ := exists_commaSeparated_eq_cons hcons (elements.map text)
    rw [List.map_cons, hcons', List.cons_append] at hread ⊢
    simp [skipBlanks_cons hblank, hclose, hread]

theorem reads_ofMembers {members : List (String × Json)} (h : ∀ m ∈ members, Reads m.2) :
    Reads (ofMembers members) := by
  intro fuel rest hfuel _
  have hwhole : (ofMembers members).text ++ rest =
      '\x7b' :: (commaSeparated (members.map pairText) ++ '\x7d' :: rest) := by
    simp [text_ofMembers]
  rw [text_ofMembers] at hfuel
  simp only [List.length_append, List.length_cons, List.length_nil] at hfuel
  obtain ⟨fuel, rfl⟩ := Nat.exists_eq_add_one.2 (show 0 < fuel by omega)
  rw [hwhole, readValue, skipBlanks_cons (by decide)]
  cases members with
  | nil => rfl
  | cons m members =>
    have hread := readMembers_texts (List.cons_ne_nil m members) h rest
      (show 2 * (commaSeparated ((m :: members).map pairText)).length < fuel by omega)
    obtain ⟨cs, hcons⟩ : ∃ cs, pairText m = '"' :: cs := ⟨_, rfl⟩
    obtain ⟨cs', hcons'⟩ := exists_commaSeparated_eq_cons hcons (members.map pairText)
    rw [List.map_cons, hcons', List.cons_append] at hread ⊢
    simp [skipBlanks_cons (show isBlank '"' = false by decide), hread, ofMembers]

/-- A document is read from its text. -/
theorem IsText.reads (h : IsText j) : Reads j := by
  have hliteral : ∀ {fuel : Nat} {name : List Char} {c : Char}, 2 * (c :: name).length ≤ fuel →
      0 < fuel := by
    intro fuel name c hfuel
    simp at hfuel
    omega
  induction h with
  | null =>
    intro fuel rest hfuel _
    obtain ⟨fuel, rfl⟩ := Nat.exists_eq_add_one.2 (hliteral hfuel)
    rfl
  | bool b =>
    intro fuel rest hfuel _
    cases b with
    | true =>
      obtain ⟨fuel, rfl⟩ := Nat.exists_eq_add_one.2 (hliteral hfuel)
      rfl
    | false =>
      obtain ⟨fuel, rfl⟩ := Nat.exists_eq_add_one.2 (hliteral hfuel)
      rfl
  | number hn => exact reads_number hn
  | string s => exact reads_string s
  | array h ih => exact reads_array h ih
  | object h ih => exact reads_ofMembers ih

theorem IsText.ofText?_text (h : IsText j) : ofText? j.text = some j := by
  have hread := h.reads (2 * j.text.length + 2) [] (by omega) (by simp [Ends])
  rw [List.append_nil] at hread
  rw [ofText?, hread]
  rfl

end Columnar.Json
