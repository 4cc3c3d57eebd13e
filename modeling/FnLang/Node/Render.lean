/- # FnLang.Node.Render — trees as canonical source text.

Every form has one spelling: operators stand in parentheses with their operands, blocks hold their
statements between braces and blanks, and a program has one statement a line.  An expression that is
a statement ends with a semicolon wherever it stands among statements, so that the text can be read
back; on its own it is written without.

A node without a form has no spelling, and the first one met stops the rendering (`RenderFault`).
Parts are visited in the order of the text, except that a call's arguments come before its callee.
-/
import FnLang.Node
import FnLang.Text.Numeral

namespace FnLang

/-- Why a tree has no text: a node whose label names no form, or one whose label names a form while
the node lacks the field that the form begins with. -/
inductive RenderFault where
  | noForm (label : String)
  | noField (field : String)
  deriving DecidableEq, Repr

namespace RenderFault

/-- The field that rendering a form looks at first. -/
def firstField? : String → Option String
  | "identifier" => some "name"
  | "integer" => some "value"
  | "boolean" => some "value"
  | "function" => some "parameters"
  | "prefix" => some "operator"
  | "infix" => some "left"
  | "if" => some "condition"
  | "call" => some "arguments"
  | "let" => some "name"
  | "return" => some "value"
  | "expression" => some "value"
  | "block" => some "statements"
  | "program" => some "statements"
  | _ => none

/-- The fault of a node without a form. -/
def ofLabel (label : String) : RenderFault :=
  match firstField? label with
  | some field => noField field
  | none => noForm label

def message : RenderFault → String
  | noForm label => "No source emitter for kind \x27" ++ label ++ "\x27"
  | noField field => "\x27Node\x27 object has no attribute \x27" ++ field ++ "\x27"

end RenderFault

namespace Node

/-- What ends a node where it stands among statements. -/
def terminator : Node → String
  | expression _ => ";"
  | _ => ""

mutual

/-- The canonical text of a tree. -/
def render : Node → Except RenderFault String
  | identifier name => .ok name
  | integer value => .ok (Text.Numeral.write value)
  | boolean value => .ok (if value then "true" else "false")
  | function parameters body => do
      let ps ← renderAll parameters
      let b ← render body
      return "fn (" ++ ", ".intercalate ps ++ ") " ++ b
  | unary operator right => do
      let r ← render right
      return "(" ++ operator ++ r ++ ")"
  | binary left operator right => do
      let l ← render left
      let r ← render right
      return "(" ++ l ++ " " ++ operator ++ " " ++ r ++ ")"
  | conditional condition consequence none => do
      let c ← render condition
      let t ← render consequence
      return "if (" ++ c ++ ") " ++ t
  | conditional condition consequence (some alternative) => do
      let c ← render condition
      let t ← render consequence
      let e ← render alternative
      return "if (" ++ c ++ ") " ++ t ++ " else " ++ e
  | call callee arguments => do
      let as ← renderAll arguments
      let f ← render callee
      return f ++ "(" ++ ", ".intercalate as ++ ")"
  | binding name value => do
      let n ← render name
      let v ← render value
      return "let " ++ n ++ " = " ++ v ++ ";"
  | returning value => do
      let v ← render value
      return "return " ++ v ++ ";"
  | expression value => render value
  | block [] => .ok "\x7b \x7d"
  | block (s :: ss) => do
      let ts ← renderStatements (s :: ss)
      return "\x7b " ++ " ".intercalate ts ++ " \x7d"
  | program statements => do
      let ts ← renderStatements statements
      return "\n".intercalate ts
  | formless _ label => .error (RenderFault.ofLabel label)

/-- The texts of several nodes. -/
def renderAll : List Node → Except RenderFault (List String)
  | [] => .ok []
  | a :: as => do
      let t ← render a
      let ts ← renderAll as
      return t :: ts

/-- The texts of statements, each with what ends it. -/
def renderStatements : List Node → Except RenderFault (List String)
  | [] => .ok []
  | s :: ss => do
      let t ← render s
      let ts ← renderStatements ss
      return (t ++ s.terminator) :: ts

end

/-- The text of a statement, with what ends it. -/
def renderTerminated (s : Node) : Except RenderFault String := do
  let t ← s.render
  return t ++ s.terminator

/-- The text that is shown for a tree: its canonical text, or why it has none. -/
def text (a : Node) : String :=
  match a.render with
  | .ok t => t
  | .error e => e.message

end Node

end FnLang
