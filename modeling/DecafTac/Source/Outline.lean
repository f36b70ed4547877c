import DecafTac.Decimal.Positional
import DecafTac.Source.Tree

/-!
One line about a node. A statement is told by the word it starts with; an expression is written with
its parts given by number, so that a long one stays short.
-/
namespace DecafTac

/-- The word that a statement starts with. -/
def Stmt.keyword : Stmt → String
  | .block .. => "block"
  | .ifThen .. | .ifElse .. => "if"
  | .whileLoop .. => "while"
  | .forLoop .. => "for"
  | .ret .. => "return"
  | .print .. => "print"
  | .leave .. => "break"
  | .expr .. => "expr"
  | .knot .. => "knot"

namespace Expr

/-- Arguments by number. -/
def argumentsOutline (actuals : List Expr) : String :=
  "(" ++ ", ".intercalate (actuals.map (·.id.text)) ++ ")"

/-- An expression in one line, its parts by number. -/
def outline : Expr → String
  | .int _ value => "int " ++ toString value
  | .double _ bits => "double " ++ Decimal.text bits
  | .bool _ value => "bool " ++ toString value
  | .string _ value => "string " ++ value
  | .null _ => "null"
  | .binary _ op left right => left.id.text ++ " " ++ op.text ++ " " ++ right.id.text
  | .unary _ op operand => op.text ++ " " ++ operand.id.text
  | .assign _ target value => target.id.text ++ " = " ++ value.id.text
  | .name _ word => word.name
  | .field _ object word => object.id.text ++ "." ++ word.name
  | .element _ array index => array.id.text ++ "[" ++ index.id.text ++ "]"
  | .call _ word actuals => word.name ++ argumentsOutline actuals
  | .send _ receiver word actuals =>
    receiver.id.text ++ "." ++ word.name ++ argumentsOutline actuals
  | .new _ cls => "new " ++ cls.name
  | .newArray _ size type => "newarray " ++ size.id.text ++ " " ++ type.text
  | .this _ => "this"
  | .readInteger _ => "readint"
  | .readLine _ => "readline"
  | .knot id => id.text

end Expr

end DecafTac
