import Columnar.Proofs.Text.Words
import Columnar.Value.Literal

/-!
# The text of literals

A literal is a word that is no identifier, or a date or timestamp after its keyword, or stands in
quotes (`Value.literalText`). This covers floats, as nothing but digits, points, exponents and signs
goes into a numeral. Which of the three a literal is shows in its first word, so a literal is told
apart from what follows it (`LiteralText.inj`), be it a text with quotes of its own.
-/

namespace Columnar

namespace Text

variable {u v s t : List Char} {name : String}

/-! ### The words of literals -/

def valueNames : List String := ["TRUE", "FALSE", "NULL", "NaN"]

/-- The words that come before a number and belong to it. -/
def dateKeywords : List String := ["DATE", "TIMESTAMP"]

/-- A number without a sign, or infinity: what may stand after a minus sign. -/
inductive Unsigned : List Char → Prop where
  | infinity : Unsigned ['i', 'n', 'f']
  | number {d : Char} {rest : List Char} (hd : d.isDigit = true)
      (hrest : ∀ c ∈ rest, isWordChar c = true) : Unsigned (d :: rest)

inductive LiteralWord : List Char → Prop where
  | name (word : String) (h : word ∈ valueNames) : LiteralWord word.toList
  | unsigned {u : List Char} (hu : Unsigned u) : LiteralWord u
  | negative {u : List Char} (hu : Unsigned u) : LiteralWord ('-' :: u)

theorem Unsigned.isWordChar (h : Unsigned u) : ∀ c ∈ u, isWordChar c = true := by
  cases h with
  | infinity => exact List.all_eq_true.1 (by decide)
  | number hd hrest => exact List.forall_mem_cons.2 ⟨isWordChar_of_isDigit hd, hrest⟩

theorem Unsigned.ne_nil (h : Unsigned u) : u ≠ [] := by
  cases h <;> exact List.cons_ne_nil _ _

theorem Unsigned.ne_capital (h : Unsigned u) {c : Char} {rest : List Char} (hc : c.isUpper = true) :
    u ≠ c :: rest := by
  have halpha : c.isAlpha = true := Bool.or_eq_true_iff.2 (.inl hc)
  cases h with
  | infinity =>
    intro heq
    obtain ⟨rfl, -⟩ := List.cons.inj heq
    exact absurd hc (by decide)
  | number hd _ =>
    intro heq
    obtain ⟨rfl, -⟩ := List.cons.inj heq
    rw [not_isDigit_of_isAlpha halpha] at hd
    cases hd

theorem LiteralWord.isWordChar (h : LiteralWord u) : ∀ c ∈ u, isWordChar c = true := by
  have hnames : ∀ word ∈ valueNames, word.toList.all Text.isWordChar = true := by decide
  cases h with
  | name word h => exact List.all_eq_true.1 (hnames _ h)
  | unsigned hu => exact hu.isWordChar
  | negative hu => exact List.forall_mem_cons.2 ⟨by decide, hu.isWordChar⟩

theorem LiteralWord.ne_nil (h : LiteralWord u) : u ≠ [] := by
  have hnames : ∀ word ∈ valueNames, word.toList ≠ [] := by decide
  cases h with
  | name word h => exact hnames _ h
  | unsigned hu => exact hu.ne_nil
  | negative hu => exact List.cons_ne_nil _ _

/-- The words that come before an operand or another word are no literals. -/
theorem LiteralWord.ne_keyword (h : LiteralWord u) {word : String}
    (hword : word ∈ "NOT" :: dateKeywords) : u ≠ word.toList := by
  have hnames : ∀ word ∈ valueNames,
      ∀ keyword ∈ "NOT" :: dateKeywords, word.toList ≠ keyword.toList := by decide
  have hcapital : ∀ keyword ∈ "NOT" :: dateKeywords, ∃ c rest,
      keyword.toList = c :: rest ∧ c.isUpper = true := by
    simp [dateKeywords]
  obtain ⟨c, rest, heq, hc⟩ := hcapital word hword
  cases h with
  | name literal h => exact hnames literal h word hword
  | unsigned hu => exact heq ▸ hu.ne_capital hc
  | negative hu =>
    rw [heq]
    intro hminus
    obtain ⟨rfl, -⟩ := List.cons.inj hminus
    cases hc

theorem LiteralWord.ne_identifier (h : LiteralWord u) (hname : Identifier name) :
    u ≠ name.toList := by
  have hnames : ∀ word ∈ valueNames, word ∈ reservedWords := by decide
  cases h with
  | name word h => exact (hname.ne_reserved _ (hnames _ h)).symm
  | unsigned hu =>
    cases hu with
    | infinity => exact (hname.ne_reserved "inf" (by decide)).symm
    | number hd _ =>
      intro heq
      rw [(hname.head heq.symm).1] at hd
      cases hd
  | negative hu => exact fun heq => (hname.head heq.symm).2 rfl

theorem LiteralWord.unsigned_of_minus (h : LiteralWord ('-' :: u)) : Unsigned u := by
  have hnames : ∀ word ∈ valueNames, word.toList.head? ≠ some '-' := by decide
  generalize hw : '-' :: u = w at h
  cases h with
  | name word h => exact absurd (hw ▸ rfl) (hnames _ h)
  | unsigned hu =>
    cases hu with
    | infinity => cases hw
    | number hd _ =>
      obtain ⟨rfl, -⟩ := List.cons.inj hw
      cases hd
  | negative hu =>
    obtain ⟨-, rfl⟩ := List.cons.inj hw
    exact hu

/-! ### Quotes -/

def doubled (t : List Char) : List Char := t.flatMap fun c => if c = '\x27' then [c, c] else [c]

theorem exists_doubled_cons (c : Char) (t : List Char) : ∃ rest, doubled (c :: t) = c :: rest := by
  by_cases hc : c = '\x27' <;> simp [doubled, hc]

/-- A quote that stands for itself is not the one that ends the text: another one follows it. -/
theorem doubled_cons_append_ne (c : Char) (u s : List Char) (ht : t.head? ≠ some '\x27') :
    doubled (c :: u) ++ s ≠ '\x27' :: t := by
  intro h
  obtain ⟨rest, hcons⟩ := exists_doubled_cons c u
  rw [hcons] at h
  obtain ⟨rfl, -⟩ := List.cons.inj h
  rw [← hcons] at h
  exact ht (by rw [← (List.cons.inj h).2]; rfl)

/-- The quote that ends a quoted text is the first one that is not doubled. -/
theorem doubled_inj (hs : s.head? ≠ some '\x27') (ht : t.head? ≠ some '\x27')
    (h : doubled u ++ '\x27' :: s = doubled v ++ '\x27' :: t) : u = v ∧ s = t := by
  induction u generalizing v with
  | nil =>
    cases v with
    | nil => exact ⟨rfl, (List.cons.inj h).2⟩
    | cons d v => exact absurd h.symm (doubled_cons_append_ne d v _ hs)
  | cons c u ih =>
    cases v with
    | nil => exact absurd h (doubled_cons_append_ne c u _ ht)
    | cons d v =>
      obtain ⟨_, hc⟩ := exists_doubled_cons c u
      obtain ⟨_, hd⟩ := exists_doubled_cons d v
      have hhead := congrArg List.head? h
      rw [hc, hd] at hhead
      obtain rfl := Option.some.inj hhead
      have htail : doubled u ++ '\x27' :: s = doubled v ++ '\x27' :: t := by
        simpa [doubled, List.flatMap_cons] using h
      obtain ⟨rfl, hrest⟩ := ih htail
      exact ⟨rfl, hrest⟩

/-! ### Literals -/

inductive LiteralText : List Char → Prop where
  | word {w : List Char} (hw : LiteralWord w) : LiteralText w
  | dated {keyword : String} (hkeyword : keyword ∈ dateKeywords) {w : List Char}
      (hw : LiteralWord w) : LiteralText (keyword.toList ++ ' ' :: w)
  | quoted (content : List Char) : LiteralText ('\x27' :: (doubled content ++ ['\x27']))

theorem LiteralWord.firstWord (h : LiteralWord u) (hs : Stops s) : firstWord (u ++ s) = u :=
  firstWord_append h.isWordChar hs.endsWord

theorem isWordChar_keyword {keyword : String} (h : keyword ∈ dateKeywords) :
    ∀ c ∈ keyword.toList, isWordChar c = true := by
  have hall : ∀ keyword ∈ dateKeywords, keyword.toList.all isWordChar = true := by decide
  exact List.all_eq_true.1 (hall keyword h)

theorem firstWord_dated {keyword : String} (h : keyword ∈ dateKeywords)
    (w s : List Char) : firstWord (keyword.toList ++ ' ' :: w ++ s) = keyword.toList := by
  rw [List.append_assoc]
  exact firstWord_append (isWordChar_keyword h) (endsWord_cons rfl)

theorem LiteralWord.ne_dateKeyword (h : LiteralWord u) {keyword : String}
    (hkeyword : keyword ∈ dateKeywords) : u ≠ keyword.toList :=
  h.ne_keyword (List.mem_cons_of_mem "NOT" hkeyword)

theorem keyword_ne_nil {keyword : String} (h : keyword ∈ dateKeywords) :
    keyword.toList ≠ [] :=
  (by decide : ∀ keyword ∈ dateKeywords, keyword.toList ≠ []) keyword h

theorem LiteralText.opening (hu : LiteralText u) (hs : Stops s) : opening (u ++ s) = none := by
  cases hu with
  | word hu => exact opening_append hu.isWordChar hs.endsWord (hs.head?_ne (by decide))
  | dated hkeyword hu =>
    rw [List.append_assoc]
    exact opening_append (isWordChar_keyword hkeyword) (endsWord_cons rfl) (by simp)
  | quoted content => rfl

theorem LiteralText.inj (hu : LiteralText u) (hv : LiteralText v) (hs : Stops s) (ht : Stops t)
    (h : u ++ s = v ++ t) : u = v ∧ s = t := by
  -- The first word tells which of the three forms a literal has.
  have hfirst := congrArg Text.firstWord h
  cases hu with
  | word hu =>
    rw [hu.firstWord hs] at hfirst
    cases hv with
    | word hv => exact words_inj hu.isWordChar hv.isWordChar hs.endsWord ht.endsWord h
    | dated hkeyword hv =>
      rw [firstWord_dated hkeyword] at hfirst
      exact absurd hfirst (hu.ne_dateKeyword hkeyword)
    | quoted content => exact absurd hfirst hu.ne_nil
  | @dated keyword hkeyword w hw =>
    rw [firstWord_dated hkeyword] at hfirst
    cases hv with
    | word hv =>
      rw [hv.firstWord ht] at hfirst
      exact absurd hfirst.symm (hv.ne_dateKeyword hkeyword)
    | dated hkeyword' hw' =>
      rw [firstWord_dated hkeyword'] at hfirst
      rw [hfirst, List.append_assoc, List.append_assoc] at h
      obtain ⟨rfl, hrest⟩ := words_inj hw.isWordChar hw'.isWordChar hs.endsWord ht.endsWord
        (List.cons.inj (List.append_cancel_left h)).2
      exact ⟨by rw [hfirst], hrest⟩
    | quoted content => exact absurd hfirst (keyword_ne_nil hkeyword)
  | quoted content =>
    cases hv with
    | word hv =>
      rw [hv.firstWord ht] at hfirst
      exact absurd hfirst.symm hv.ne_nil
    | dated hkeyword hw =>
      rw [firstWord_dated hkeyword] at hfirst
      exact absurd hfirst.symm (keyword_ne_nil hkeyword)
    | quoted content' =>
      have hinner : doubled content ++ '\x27' :: s = doubled content' ++ '\x27' :: t := by
        simpa using h
      obtain ⟨rfl, hrest⟩ := doubled_inj (hs.head?_ne (by decide)) (ht.head?_ne (by decide)) hinner
      exact ⟨rfl, hrest⟩

theorem LiteralText.ne_identifier (hu : LiteralText u) (hname : Identifier name) (hs : Stops s)
    (ht : Stops t) : u ++ s ≠ name.toList ++ t := by
  intro h
  have hfirst := congrArg Text.firstWord h
  rw [firstWord_append (fun c => hname.isWordChar) ht.endsWord] at hfirst
  cases hu with
  | word hu =>
    rw [hu.firstWord hs] at hfirst
    exact hu.ne_identifier hname hfirst
  | dated hkeyword hw =>
    rw [firstWord_dated hkeyword] at hfirst
    have hreserved : ∀ keyword ∈ dateKeywords, keyword ∈ reservedWords := by decide
    exact hname.ne_reserved _ (hreserved _ hkeyword) hfirst.symm
  | quoted content => exact hname.ne_nil hfirst.symm

theorem LiteralText.head (hu : LiteralText u) {c : Char} (h : u ++ s = c :: t) :
    isWordChar c = true ∨ c = '\x27' := by
  cases hu with
  | word hu => exact .inl (isWordChar_head hu.isWordChar hu.ne_nil h)
  | dated hkeyword hw =>
    rw [List.append_assoc] at h
    exact .inl (isWordChar_head (isWordChar_keyword hkeyword) (keyword_ne_nil hkeyword) h)
  | quoted content => exact .inr (List.cons.inj h).1.symm

/-! ### After a parenthesis -/

theorem LiteralText.firstWord_ne_not (hu : LiteralText u) (hs : Stops s) :
    firstWord (u ++ s) ≠ "NOT".toList := by
  cases hu with
  | word hu =>
    rw [hu.firstWord hs]
    exact hu.ne_keyword (by decide)
  | dated hkeyword hw =>
    rw [firstWord_dated hkeyword]
    exact (by decide : ∀ keyword ∈ dateKeywords, keyword.toList ≠ "NOT".toList) _ hkeyword
  | quoted content => exact fun h => by cases h

theorem LiteralText.unsigned_of_minus (hu : LiteralText u) (h : u ++ s = '-' :: t) :
    ∃ w, Unsigned w ∧ u = '-' :: w := by
  cases hu with
  | word hu =>
    obtain ⟨c, w, rfl⟩ := List.exists_cons_of_ne_nil hu.ne_nil
    obtain ⟨rfl, -⟩ := List.cons.inj h
    exact ⟨w, hu.unsigned_of_minus, rfl⟩
  | dated hkeyword hw =>
    have hhead : ∀ keyword ∈ dateKeywords, ∃ c rest,
        keyword.toList = c :: rest ∧ c ≠ '-' := by
      simp [dateKeywords]
    obtain ⟨c, rest, heq, hc⟩ := hhead _ hkeyword
    rw [heq] at h
    exact absurd (List.cons.inj h).1 hc
  | quoted content => cases h

theorem LiteralText.ne_unsigned_append (hu : LiteralText u) {w : List Char} (hw : Unsigned w) :
    w ++ ' ' :: t ≠ u ++ ')' :: s := by
  intro h
  have hword := LiteralWord.unsigned hw
  have hfirst := congrArg Text.firstWord h
  rw [firstWord_append hw.isWordChar (endsWord_cons rfl)] at hfirst
  cases hu with
  | word hu =>
    obtain ⟨-, hmarks⟩ := words_inj hw.isWordChar hu.isWordChar (endsWord_cons rfl)
      (endsWord_cons rfl) h
    exact absurd (List.cons.inj hmarks).1 (by decide)
  | dated hkeyword _ =>
    rw [firstWord_dated hkeyword] at hfirst
    exact hword.ne_dateKeyword hkeyword hfirst
  | quoted content => exact hw.ne_nil hfirst

end Text

/-! ### Numerals -/

namespace Numeral

/-- Only digits stand around the point, and some before it. -/
structure InDigits (n : Numeral) : Prop where
  whole_ne_nil : n.whole ≠ []
  whole : ∀ c ∈ n.whole, c.isDigit = true
  fraction : ∀ c ∈ n.fraction, c.isDigit = true

theorem isDigit_of_mem_toDigits {n : Nat} : ∀ c ∈ Nat.toDigits 10 n, c.isDigit = true :=
  fun _ hc => Nat.isDigit_of_mem_toDigits (by decide) (by decide) hc

theorem isWordChar_exponentText (e : Int) :
    ∀ c ∈ exponentText false e, Text.isWordChar c = true := by
  have hdigits : ∀ n, ∀ c ∈ Nat.toDigits 10 n, Text.isWordChar c = true :=
    fun n c hc => Text.isWordChar_of_isDigit (isDigit_of_mem_toDigits c hc)
  cases e with
  | ofNat e => exact hdigits e
  | negSucc e => exact List.forall_mem_cons.2 ⟨by decide, hdigits (e + 1)⟩

/-- What is written after the first digit goes on with the word. -/
theorem InDigits.literalWord {n : Numeral} (h : n.InDigits) :
    Text.LiteralWord (n.text false) := by
  have hdigit : ∀ {l : List Char}, (∀ c ∈ l, c.isDigit = true) →
      ∀ c ∈ l, Text.isWordChar c = true :=
    fun hl c hc => Text.isWordChar_of_isDigit (hl c hc)
  have hfraction : ∀ c ∈ (if n.fraction.isEmpty then [] else '.' :: n.fraction),
      Text.isWordChar c = true := by
    split
    · simp
    · exact List.forall_mem_cons.2 ⟨by decide, hdigit h.fraction⟩
  have hexponent : ∃ exponent, (∀ c ∈ exponent, Text.isWordChar c = true) ∧
      n.text false = (if n.negative then ['-'] else []) ++ n.whole ++
        (if n.fraction.isEmpty then [] else '.' :: n.fraction) ++ exponent := by
    unfold text
    cases n.exponent with
    | none => exact ⟨[], by simp, rfl⟩
    | some e =>
      exact ⟨'e' :: exponentText false e,
        List.forall_mem_cons.2 ⟨by decide, isWordChar_exponentText e⟩, rfl⟩
  obtain ⟨d, rest, hwhole⟩ := List.exists_cons_of_ne_nil h.whole_ne_nil
  obtain ⟨hd, hrest⟩ := List.forall_mem_cons.1 (hwhole ▸ h.whole)
  obtain ⟨exponent, hexponent, htext⟩ := hexponent
  have hunsigned := Text.Unsigned.number hd (List.forall_mem_append.2
    ⟨List.forall_mem_append.2 ⟨hdigit hrest, hfraction⟩, hexponent⟩)
  rw [htext, hwhole]
  cases n.negative with
  | false => exact .unsigned hunsigned
  | true => exact .negative hunsigned

theorem inDigits_ofInt (n : Int) : (ofInt n).InDigits :=
  ⟨Nat.toDigits_ne_nil, isDigit_of_mem_toDigits, by simp [ofInt]⟩

theorem inDigits_inPlace {negative : Bool} {digits : List Char} {point : Int}
    (hne : digits ≠ []) (hdigits : ∀ c ∈ digits, c.isDigit = true) :
    (inPlace negative digits point).InDigits := by
  have hzeros : ∀ count, ∀ c ∈ List.replicate count '0', c.isDigit = true := by
    intro count c hc
    rw [List.eq_of_mem_replicate hc]
    decide
  cases point with
  | ofNat point =>
    cases point with
    | zero => exact ⟨List.cons_ne_nil _ _, by simp [inPlace], hdigits⟩
    | succ point =>
      refine ⟨?_, ?_, ?_⟩
      · simp [inPlace, hne]
      · exact List.forall_mem_append.2 ⟨fun c hc => hdigits c (List.mem_of_mem_take hc), hzeros _⟩
      · dsimp only [inPlace]
        split
        · simp
        · exact fun c hc => hdigits c (List.mem_of_mem_drop hc)
  | negSucc zeros =>
    exact ⟨List.cons_ne_nil _ _, by simp [inPlace], List.forall_mem_append.2 ⟨hzeros _, hdigits⟩⟩

theorem Layout.inDigits_numeral (layout : Layout) (negative : Bool) (d : Decimal) :
    (layout.numeral negative d).InDigits := by
  have hne : Nat.toDigits 10 d.digits ≠ [] := Nat.toDigits_ne_nil
  unfold numeral
  dsimp only
  split
  · exact ⟨List.cons_ne_nil _ _, by simp, by simp⟩
  · split
    · exact inDigits_inPlace hne isDigit_of_mem_toDigits
    · exact ⟨by simp [hne], fun c hc => isDigit_of_mem_toDigits c (List.mem_of_mem_take hc),
        fun c hc => isDigit_of_mem_toDigits c (List.mem_of_mem_drop hc)⟩

theorem Layout.inDigits_shortest (layout : Layout) (f : FloatFormat) (negative : Bool)
    (code : Nat) : (layout.shortest f negative code).InDigits := by
  unfold shortest
  split <;> exact layout.inDigits_numeral negative _

end Numeral

/-! ### Values -/

theorem literalWord_intText (n : Int) : Text.LiteralWord (intText n).toList := by
  rw [intText, String.toList_ofList]
  exact (Numeral.inDigits_ofInt n).literalWord

theorem Floating.literalWord {f : FloatFormat} (x : Floating f) :
    Text.LiteralWord x.literal.toList := by
  cases x with
  | nan => exact .name "NaN" (by decide)
  | number negative code h =>
    simp only [literal]
    split
    · cases negative with
      | false => exact .unsigned .infinity
      | true => exact .negative .infinity
    · rw [String.toList_ofList]
      exact (literalLayout.inDigits_shortest f negative code).literalWord

theorem Value.literalText (v : Value) : Text.LiteralText v.literal.toList := by
  cases v with
  | int64 n => exact .word (literalWord_intText n.toInt)
  | float32 x => exact .word x.literalWord
  | float64 x => exact .word x.literalWord
  | bool b =>
    cases b with
    | false => exact .word (.name "FALSE" (by decide))
    | true => exact .word (.name "TRUE" (by decide))
  | string s =>
    have hquoted : (quoted s).toList = '\x27' :: (Text.doubled s.toList ++ ['\x27']) := by
      simp [quoted, Text.doubled]
    exact hquoted ▸ .quoted s.toList
  | date days =>
    have hdated : (Value.date days).literal.toList =
        "DATE".toList ++ ' ' :: (intText days.toInt).toList := by
      simp [literal]
    exact hdated ▸ .dated (by decide) (literalWord_intText days.toInt)
  | timestamp micros =>
    have hdated : (Value.timestamp micros).literal.toList =
        "TIMESTAMP".toList ++ ' ' :: (intText micros.toInt).toList := by
      simp [literal]
    exact hdated ▸ .dated (by decide) (literalWord_intText micros.toInt)
  | null => exact .word (.name "NULL" (by decide))

end Columnar
