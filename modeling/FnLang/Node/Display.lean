/- # FnLang.Node.Display — trees as constructor terms.

The display of a node shows its form's name and every field by name, so that nodes which differ in
form or fields are told apart at a glance.
-/
import FnLang.Node
import FnLang.Text.Numeral
import FnLang.Text.Quoted

namespace FnLang

def Family.displayName : Family → String
  | .node => "Node"
  | .expression => "Expression"
  | .statement => "Statement"

namespace Node

/-- Displays between brackets. -/
def bracketed (items : List String) : String :=
  "[" ++ ", ".intercalate items ++ "]"

mutual

/-- A node as a constructor with named fields. -/
def display : Node → String
  | identifier name => "Identifier(name=" ++ Text.quoted name ++ ")"
  | integer value => "IntegerLiteral(value=" ++ Text.Numeral.write value ++ ")"
  | boolean value => "BooleanLiteral(value=" ++ (if value then "True" else "False") ++ ")"
  | function parameters body =>
      "FunctionLiteral(parameters=" ++ bracketed (displayAll parameters) ++ ", body=" ++
        display body ++ ")"
  | unary operator right =>
      "PrefixExpression(operator=" ++ Text.quoted operator ++ ", right=" ++ display right ++ ")"
  | binary left operator right =>
      "InfixExpression(left=" ++ display left ++ ", operator=" ++ Text.quoted operator ++
        ", right=" ++ display right ++ ")"
  | conditional condition consequence alternative =>
      "IfExpression(condition=" ++ display condition ++ ", consequence=" ++ display consequence ++
        ", alternative=" ++ displayOption alternative ++ ")"
  | call callee arguments =>
      "CallExpression(function=" ++ display callee ++ ", arguments=" ++
        bracketed (displayAll arguments) ++ ")"
  | binding name value =>
      "LetStatement(name=" ++ display name ++ ", value=" ++ display value ++ ")"
  | returning value => "ReturnStatement(value=" ++ display value ++ ")"
  | expression value => "ExpressionStatement(value=" ++ display value ++ ")"
  | block statements => "BlockStatement(statements=" ++ bracketed (displayAll statements) ++ ")"
  | program statements => "Program(statements=" ++ bracketed (displayAll statements) ++ ")"
  | formless family _ => family.displayName ++ "()"

/-- The displays of several nodes. -/
def displayAll : List Node → List String
  | [] => []
  | a :: as => display a :: displayAll as

/-- A missing node is displayed as nothing there. -/
def displayOption : Option Node → String
  | none => "None"
  | some a => display a

end

end Node

end FnLang
