import Columnar.Expr.Basic
import Columnar.Node.Basic

/-!
# The text of an expression

An expression is written with every operator in parentheses, functions by their own names, and an
alias in place of what it names. Two expressions that differ only in aliases are the same once the
aliases are removed.
-/

namespace Columnar

/-- The name under which a function is written: its own, if the text names one. -/
def ScalarFunction.canonicalName (text : String) : String :=
  match ofName? text with
  | some function => function.name
  | none => text

namespace Expr

mutual

def text : Expr → String
  | literal value => value.literal
  | column name => name
  | binary left op right => "(" ++ left.text ++ " " ++ op.symbol ++ " " ++ right.text ++ ")"
  | unary op operand => Node.unaryText op operand.text
  | call name arguments =>
    ScalarFunction.canonicalName name ++ "(" ++ String.intercalate ", " (textAll arguments) ++ ")"
  | aggregate function argument => function.name ++ "(" ++ argument.text ++ ")"
  | aggregateRows function => function.name ++ "(*)"
  | named _ name => name

def textAll : List Expr → List String
  | [] => []
  | e :: rest => e.text :: textAll rest

end

mutual

/-- The expression with every alias replaced by what it names. -/
def withoutAliases : Expr → Expr
  | literal value => literal value
  | column name => column name
  | binary left op right => binary left.withoutAliases op right.withoutAliases
  | unary op operand => unary op operand.withoutAliases
  | call name arguments => call name (withoutAliasesAll arguments)
  | aggregate function argument => aggregate function argument.withoutAliases
  | aggregateRows function => aggregateRows function
  | named inner _ => inner.withoutAliases

def withoutAliasesAll : List Expr → List Expr
  | [] => []
  | e :: rest => e.withoutAliases :: withoutAliasesAll rest

end

@[simp] theorem withoutAliasesAll_eq_map (es : List Expr) :
    withoutAliasesAll es = es.map withoutAliases := by
  induction es with
  | nil => rfl
  | cons e rest ih => rw [withoutAliasesAll, ih, List.map_cons]

end Expr

/-- The plan with every alias, at every depth, replaced by what it names. -/
def Plan.withoutAliases (plan : Plan) : Plan := ⟨plan.expressions.map Expr.withoutAliases⟩

end Columnar
