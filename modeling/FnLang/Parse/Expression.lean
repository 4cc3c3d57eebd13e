/- # FnLang.Parse.Expression — expressions, by the strength of their operators.

An expression is an operand and the continuations after it: operators with their right operand, and
argument lists.  It goes on while the next token binds more strongly than the least priority asked
for, so a right operand ends before an operator of its own strength and equal operators group to the
left (`climb`).

Operands hold expressions again.  `expression` counts down a limit on that nesting, and every parser
of a single form takes the parser of the expressions inside it.
-/
import FnLang.Parse.Statement

namespace FnLang.Parse

section

variable (expression : Int → Parse Node)

/-! ## Operands -/

/-- The integer literal that is the current token. -/
def integerLiteral : Parse Node := do
  let t ← current
  match Text.Numeral.readLiteral t.text with
  | .ok v => return .integer v
  | .error .malformed => fail (.malformedInteger t.text) t
  | .error .outOfRange => fail (.integerOutOfRange t.text) t

/-- An operator before its operand. -/
def unary : Parse Node := do
  let operator ← current
  advanceTo (.operand operator.text)
  let right ← expression Priority.unary.level
  return .unary operator.text right

/-- An expression in parentheses, from the opening one on.  The parentheses leave no node. -/
def group : Parse Node := do
  let opening ← current
  advanceTo .groupBody
  let e ← expression Priority.lowest.level
  let next ← lookahead
  unless ← accept .rparen do
    fail (.unclosedGroup opening.line opening.column next.kind) next
  return e

/-- `if (<condition>) <block>` and an optional `else <block>`, from the reserved word on. -/
def conditional : Parse Node := do
  let _ ← expect .lparen
  advanceTo .condition
  let condition ← expression Priority.lowest.level
  let _ ← expect .rparen
  let _ ← expect .lbrace
  let consequence ← block expression
  if ← accept .elseWord then
    let _ ← expect .lbrace
    let alternative ← block expression
    return .conditional condition consequence (some alternative)
  else
    return .conditional condition consequence none

/-- Items between commas up to a closing parenthesis, from the opening one on; `next` reads an item
from the comma before it. -/
def listed {α : Type} (first next : Parse α) : Parse (List α) := do
  if ← accept .rparen then
    return []
  else
    let item ← first
    let items ← foldAhead
      (fun k => if k = .comma then some fun items => do return (← next) :: items else none) [item]
    let _ ← expect .rparen
    return items.reverse

/-- The name of a parameter, which is the next token. -/
def parameter : Parse Node := do
  let name ← expect .ident
  return .identifier name.text

/-- The parameters of a function, from the opening parenthesis on. -/
def parameters : Parse (List Node) :=
  listed parameter parameter

/-- `fn (<parameters>) <block>`, from the reserved word on. -/
def function : Parse Node := do
  let _ ← expect .lparen
  let ps ← parameters
  let _ ← expect .lbrace
  let body ← block expression
  return .function ps body

/-- The operand that starts at the current token. -/
def operand : Parse Node := do
  let t ← current
  match t.kind with
  | .ident => return .identifier t.text
  | .int => integerLiteral
  | .boolean => return .boolean (t.text == "true")
  | .lparen => group expression
  | .ifWord => conditional expression
  | .fnWord => function expression
  | k =>
      if k.isUnaryOperator then unary expression
      else fail (.noExpression t.kind t.text) t

/-! ## Continuations -/

/-- An argument, which starts at the next token. -/
def argument (wanted : Wanted) : Parse Node := do
  advanceTo wanted
  expression Priority.lowest.level

/-- The arguments of a call, from the opening parenthesis on. -/
def arguments : Parse (List Node) :=
  listed (argument expression .firstArgument) (argument expression .nextArgument)

/-- A call of what was read, from the opening parenthesis on. -/
def call (callee : Node) : Parse Node := do
  let as ← arguments expression
  return .call callee as

/-- An operator after its left operand, from the operator on. -/
def binary (left : Node) : Parse Node := do
  let operator ← current
  advanceTo (.operand operator.text)
  let right ← expression operator.kind.priority.level
  return .binary left operator.text right

/-- How an expression goes on. -/
inductive Continuation where
  | binary
  | call
  deriving DecidableEq, Repr

/-- The continuation that a kind of token begins. -/
def continuation? (k : Kind) : Option Continuation :=
  if k.isBinaryOperator then some .binary
  else if k = .lparen then some .call
  else none

/-- Reads a continuation of `left`. -/
def Continuation.parse (left : Node) : Continuation → Parse Node
  | .binary => Parse.binary expression left
  | .call => Parse.call expression left

/-- Takes in the continuations that bind more strongly than `least`. -/
def climb (least : Int) (left : Node) : Parse Node :=
  foldAhead
    (fun k =>
      if least < k.priority.level then
        (continuation? k).map fun c left => c.parse expression left
      else none)
    left

end

/-! ## Expressions -/

/-- The expression that starts at the current token, with every continuation that binds more
strongly than `least`.  `limit` bounds how deeply expressions may stand inside one another. -/
def expression : (limit : Nat) → (least : Int) → Parse Node
  | 0, _ => do
      let t ← current
      fail .nestedTooDeeply t
  | limit + 1, least => do
      let left ← operand (expression limit)
      climb (expression limit) least left

@[simp] theorem run_expression_zero (least : Int) (c : Cursor) :
    (expression 0 least).run c = (.error ⟨.nestedTooDeeply, some c.current⟩, c) := rfl

/-- How deeply expressions may stand inside one another unless a parser is told otherwise: operands,
arguments, conditions, the bodies of groups and the statements of blocks all count. -/
def nestingLimit : Nat := 450

end FnLang.Parse
