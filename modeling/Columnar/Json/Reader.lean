import Columnar.Json.Basic

/-!
# Reading JSON

A text is read as one document with blanks around it and between its tokens. A number has no
superfluous leading zero and at least one digit after a point; control characters do not stand in
strings; no comma comes last. Escapes that name half of a surrogate pair are read, but leave the
string without a content.
-/

namespace Columnar.Json

def isBlank (c : Char) : Bool := c = ' ' || c = '\n' || c = '\t' || c = '\x0d'

def skipBlanks (cs : List Char) : List Char := cs.dropWhile isBlank

/-- The text after an expected beginning. -/
def expect : List Char → List Char → Option (List Char)
  | [], cs => some cs
  | e :: es, c :: cs => if e = c then expect es cs else none
  | _ :: _, [] => none

/-! ### Numbers -/

def digits (cs : List Char) : List Char × List Char := cs.span Char.isDigit

/-- The leading digits, of which there has to be one. -/
def someDigits (cs : List Char) : Option (List Char × List Char) :=
  match digits cs with
  | ([], _) => none
  | found => some found

/-- The digits before the point. A zero stands alone. -/
def readWhole : List Char → Option (List Char × List Char)
  | '0' :: rest => some (['0'], rest)
  | cs => someDigits cs

def readFraction : List Char → Option (List Char × List Char)
  | '.' :: rest => someDigits rest
  | cs => some ([], cs)

/-- The digits of an exponent and its sign. -/
def readSigned : List Char → Option (Int × List Char)
  | '-' :: rest => do
    let (ds, rest) ← someDigits rest
    return (-(Nat.ofDigitChars 10 ds 0), rest)
  | '+' :: rest => do
    let (ds, rest) ← someDigits rest
    return (Nat.ofDigitChars 10 ds 0, rest)
  | cs => do
    let (ds, rest) ← someDigits cs
    return (Nat.ofDigitChars 10 ds 0, rest)

def readExponent : List Char → Option (Option Int × List Char)
  | c :: rest =>
    if c = 'e' || c = 'E' then do
      let (e, rest) ← readSigned rest
      return (some e, rest)
    else some (none, c :: rest)
  | [] => some (none, [])

def readUnsigned (negative : Bool) (cs : List Char) : Option (Json × List Char) := do
  let (whole, cs) ← readWhole cs
  let (fraction, cs) ← readFraction cs
  let (exponent, cs) ← readExponent cs
  return (number ⟨negative, whole, fraction, exponent⟩, cs)

def readNumber : List Char → Option (Json × List Char)
  | '-' :: rest => readUnsigned true rest
  | cs => readUnsigned false cs

/-! ### Strings -/

def hexValue? (c : Char) : Option Nat :=
  if '0' ≤ c && c ≤ '9' then some (c.toNat - 48)
  else if 'a' ≤ c && c ≤ 'f' then some (c.toNat - 87)
  else if 'A' ≤ c && c ≤ 'F' then some (c.toNat - 55)
  else none

def shortEscape? (c : Char) : Option Nat :=
  if c = '"' || c = '\\' || c = '/' then some c.toNat
  else if c = 'b' then some 8
  else if c = 'f' then some 12
  else if c = 'n' then some 10
  else if c = 'r' then some 13
  else if c = 't' then some 9
  else none

/-- The codes of a string up to its closing quote. A long escape gives the code of half a surrogate
pair too. -/
def readCodes : List Char → Option (List Nat × List Char)
  | [] => none
  | '"' :: rest => some ([], rest)
  | '\\' :: 'u' :: a :: b :: c :: d :: rest => do
    let high := (← hexValue? a) * 16 + (← hexValue? b)
    let code := high * 256 + (← hexValue? c) * 16 + (← hexValue? d)
    let (codes, rest) ← readCodes rest
    return (code :: codes, rest)
  | '\\' :: e :: rest => do
    let code ← shortEscape? e
    let (codes, rest) ← readCodes rest
    return (code :: codes, rest)
  | c :: rest =>
    if c.toNat < 32 || c = '\\' then none
    else do
      let (codes, rest) ← readCodes rest
      return (c.toNat :: codes, rest)

def isHighSurrogate (code : Nat) : Bool := 0xD800 ≤ code && code ≤ 0xDBFF

def isLowSurrogate (code : Nat) : Bool := 0xDC00 ≤ code && code ≤ 0xDFFF

/-- The characters of a list of codes, pairs of surrogates joined. There are none if a half is left
over. -/
def decodeCodes : List Nat → Option (List Char)
  | [] => some []
  | [code] =>
    if isHighSurrogate code || isLowSurrogate code then none else some [Char.ofNat code]
  | first :: second :: rest =>
    if isHighSurrogate first && isLowSurrogate second then do
      let code := 0x10000 + (first - 0xD800) * 0x400 + (second - 0xDC00)
      return Char.ofNat code :: (← decodeCodes rest)
    else if isHighSurrogate first || isLowSurrogate first then none
    else do return Char.ofNat first :: (← decodeCodes (second :: rest))

def readContent (cs : List Char) : Option (Option String × List Char) := do
  let (codes, rest) ← readCodes cs
  return ((decodeCodes codes).map String.ofList, rest)

/-! ### Documents -/

def readLiteral (name : List Char) (j : Json) (cs : List Char) : Option (Json × List Char) := do
  return (j, ← expect name cs)

mutual

/-- A document at the beginning of a text. The fuel bounds the number of steps. -/
def readValue : Nat → List Char → Option (Json × List Char)
  | 0, _ => none
  | fuel + 1, cs =>
    match skipBlanks cs with
    | [] => none
    | '"' :: rest => do
      let (content, rest) ← readContent rest
      return (string content, rest)
    | '[' :: rest =>
      match skipBlanks rest with
      | ']' :: rest => some (array [], rest)
      | rest => do
        let (elements, rest) ← readElements fuel rest
        return (array elements, rest)
    | '\x7b' :: rest =>
      match skipBlanks rest with
      | '\x7d' :: rest => some (object [], rest)
      | rest => do
        let (members, rest) ← readMembers fuel rest
        return (object members, rest)
    | 't' :: rest => readLiteral "rue".toList (bool true) rest
    | 'f' :: rest => readLiteral "alse".toList (bool false) rest
    | 'n' :: rest => readLiteral "ull".toList null rest
    | cs => readNumber cs

/-- The elements of an array that has one, with its closing bracket. -/
def readElements : Nat → List Char → Option (List Json × List Char)
  | 0, _ => none
  | fuel + 1, cs => do
    let (e, rest) ← readValue fuel cs
    match skipBlanks rest with
    | ']' :: rest => return ([e], rest)
    | ',' :: rest => do
      let (elements, rest) ← readElements fuel rest
      return (e :: elements, rest)
    | _ => none

/-- The members of an object that has one, with its closing brace. -/
def readMembers : Nat → List Char → Option (List (Option String × Json) × List Char)
  | 0, _ => none
  | fuel + 1, cs =>
    match skipBlanks cs with
    | '"' :: rest => do
      let (key, rest) ← readContent rest
      let ':' :: rest := skipBlanks rest | none
      let (v, rest) ← readValue fuel rest
      match skipBlanks rest with
      | '\x7d' :: rest => return ([(key, v)], rest)
      | ',' :: rest => do
        let (members, rest) ← readMembers fuel rest
        return ((key, v) :: members, rest)
      | _ => none
    | _ => none

end

def ofText? (cs : List Char) : Option Json := do
  let (j, rest) ← readValue (2 * cs.length + 2) cs
  if (skipBlanks rest).isEmpty then return j else none

end Columnar.Json
