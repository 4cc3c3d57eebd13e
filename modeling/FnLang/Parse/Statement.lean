/- # FnLang.Parse.Statement — statements and blocks.

A statement binds a name, returns a value or is an expression; a semicolon after it belongs to it
but is not required.  A block is statements between braces.  Statements hold expressions and
expressions hold blocks, so the parsers here take the parser of expressions, which depends on the
least priority an operator must exceed to be taken in.
-/
import FnLang.Node
import FnLang.Parse.Basic

namespace FnLang.Parse

variable (expression : Int → Parse Node)

/-- An expression that takes in every operator after it, and the semicolon at its end, if any. -/
def value : Parse Node := do
  let e ← expression Priority.lowest.level
  let _ ← accept .semicolon
  return e

/-- `let <name> = <value>`, from the reserved word on. -/
def binding : Parse Node := do
  let name ← expect .ident
  let _ ← expect .assign
  advanceTo .letValue
  let v ← value expression
  return .binding (.identifier name.text) v

/-- `return <value>`, from the reserved word on. -/
def returning : Parse Node := do
  advanceTo .returnValue
  let v ← value expression
  return .returning v

/-- An expression in the place of a statement. -/
def expressionStatement : Parse Node := do
  let v ← value expression
  return .expression v

/-- A statement, from its first token on. -/
def statement : Parse Node := do
  match (← current).kind with
  | .letWord => binding expression
  | .returnWord => returning expression
  | _ => expressionStatement expression

/-- A block, from its opening brace on.  While it is read it counts as open. -/
def block : Parse Node := do
  let opening ← current
  countBlocks (· + 1)
  unless ← advance do
    fail .unclosedBlock opening
  let statements ← itemsUntil .rbrace ⟨.unclosedBlock, opening⟩ (statement expression)
  countBlocks (· - 1)
  return .block statements

end FnLang.Parse
