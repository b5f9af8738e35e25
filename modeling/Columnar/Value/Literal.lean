import Columnar.Value.Basic
import Columnar.Text.Numeral

/-!
# Literal text

How a value is written in the text of an expression. Strings stand in single quotes, a quote inside
being written twice. Floats have the fewest digits that read back; the point is in its place while
the leading digit stands for at least a ten-thousandth and for less than ten to the sixteenth.
-/

namespace Columnar

def literalLayout : Numeral.Layout := ⟨.up, -4, 16, false⟩

def Floating.literal {f : FloatFormat} : Floating f → String
  | nan => "NaN"
  | number negative code _ =>
    if code = f.infinityCode then (if negative then "-inf" else "inf")
    else String.ofList ((literalLayout.shortest f negative code).text literalLayout.plus)

def quoted (s : String) : String :=
  "'" ++ String.ofList (s.toList.flatMap fun c => if c = '\x27' then [c, c] else [c]) ++ "'"

def Value.literal : Value → String
  | int64 n => intText n.toInt
  | float32 x => x.literal
  | float64 x => x.literal
  | bool true => "TRUE"
  | bool false => "FALSE"
  | string s => quoted s
  | date days => "DATE " ++ intText days.toInt
  | timestamp micros => "TIMESTAMP " ++ intText micros.toInt
  | null => "NULL"

end Columnar
