import Columnar.Text.Numeral

/-!
# JSON documents

A document is kept as it was read: numbers as numerals, object members in order with repetitions,
and a string without a content where its escapes name no Unicode text. The text of a document is
compact. In strings the quote, the backslash and control characters are escaped, and everything else
stands for itself.
-/

namespace Columnar

inductive Json where
  | null
  | bool (b : Bool)
  | number (n : Numeral)
  | string (content : Option String)
  | array (elements : List Json)
  | object (members : List (Option String × Json))
deriving Inhabited

namespace Json

def ofString (s : String) : Json := string (some s)

def ofMembers (members : List (String × Json)) : Json :=
  object (members.map fun (key, value) => (some key, value))

/-! ### Text -/

def hexDigit (n : Nat) : Char := if n < 10 then Char.ofNat (48 + n) else Char.ofNat (87 + n)

def escape (c : Char) : List Char :=
  if c = '"' then ['\\', '"']
  else if c = '\\' then ['\\', '\\']
  else if c = '\x08' then ['\\', 'b']
  else if c = '\x0c' then ['\\', 'f']
  else if c = '\n' then ['\\', 'n']
  else if c = '\x0d' then ['\\', 'r']
  else if c = '\t' then ['\\', 't']
  else if c.toNat < 32 then ['\\', 'u', '0', '0', hexDigit (c.toNat / 16), hexDigit (c.toNat % 16)]
  else [c]

def stringText (content : List Char) : List Char := '"' :: content.flatMap escape ++ ['"']

def commaSeparated : List (List Char) → List Char
  | [] => []
  | [t] => t
  | t :: rest => t ++ ',' :: commaSeparated rest

mutual

def text : Json → List Char
  | null => "null".toList
  | bool true => "true".toList
  | bool false => "false".toList
  | number n => n.text true
  | string content => stringText (content.getD "").toList
  | array elements => '[' :: commaSeparated (elementTexts elements) ++ [']']
  | object members => '\x7b' :: commaSeparated (memberTexts members) ++ ['\x7d']

def elementTexts : List Json → List (List Char)
  | [] => []
  | e :: rest => e.text :: elementTexts rest

def memberTexts : List (Option String × Json) → List (List Char)
  | [] => []
  | m :: rest => memberText m :: memberTexts rest

def memberText : Option String × Json → List Char
  | (key, value) => stringText (key.getD "").toList ++ ':' :: value.text

end

end Json

end Columnar
