/- # FnLang.ParseError — why a statement cannot be parsed.

An error is a cause and the token it was detected at.  The wording is in one place,
`Cause.message`; `ParseError.text` adds the place of the token when it has one.
-/
import FnLang.Token
import FnLang.Text.Numeral

namespace FnLang

/-- What an input that ends too soon should have gone on with. -/
inductive Wanted where
  | letValue
  | returnValue
  | operand (operator : String)
  | groupBody
  | condition
  | firstArgument
  | nextArgument
  | described (what : String)
  deriving DecidableEq, Repr

def Wanted.message : Wanted → String
  | letValue => "an expression after \x27=\x27"
  | returnValue => "an expression after \x27return\x27"
  | operand operator => "an operand after " ++ Text.quoted operator
  | groupBody => "an expression after \x27(\x27"
  | condition => "a condition after \x27if (\x27"
  | firstArgument => "an argument after \x27(\x27"
  | nextArgument => "an argument after \x27,\x27"
  | described what => what

/-- The cause of an error. -/
inductive Cause where
  /-- Another kind should have come next. -/
  | unexpected (expected found : Kind)
  /-- The input ended where something was wanted. -/
  | missing (what : Wanted)
  /-- The input ended inside a block. -/
  | unclosedBlock
  /-- A group that was opened at a place is not closed by the next token. -/
  | unclosedGroup (line column : Int) (found : Kind)
  /-- No expression starts with the token. -/
  | noExpression (kind : Kind) (text : String)
  /-- The text of an integer token is no numeral. -/
  | malformedInteger (text : String)
  /-- The integer does not fit in 32 bits. -/
  | integerOutOfRange (text : String)
  /-- Expressions are nested beyond the limit. -/
  | nestedTooDeeply
  deriving DecidableEq, Repr

def Cause.message : Cause → String
  | unexpected expected found =>
      "expected next token to be " ++ expected.name ++
        if found = .eof then ", got end of input" else ", got " ++ found.name ++ " instead"
  | missing what => "expected " ++ what.message ++ ", got end of input"
  | unclosedBlock => "expected \x27\x7d\x27 to close block, got end of input"
  | unclosedGroup line column found =>
      "expected \x27)\x27 to close \x27(\x27 opened at line " ++ Text.Numeral.write line ++
        ", col " ++ Text.Numeral.write column ++ ", got " ++ found.name
  | noExpression kind text =>
      "no prefix parse function for " ++ kind.name ++ " " ++ Text.quoted text
  | malformedInteger text => "could not parse " ++ Text.quoted text ++ " as integer"
  | integerOutOfRange text =>
      "could not parse " ++ Text.quoted text ++ " as integer: out of 32-bit range"
  | nestedTooDeeply => "expression nested too deeply"

/-- An error: its cause, and the token it was detected at if there is one to point at. -/
structure ParseError where
  cause : Cause
  token : Option Token
  deriving DecidableEq, Repr

namespace ParseError

/-- What is reported for an error: a message, and the place of a token unless its line is zero. -/
def report (message : String) (token : Option Token) : String :=
  let place :=
    match token with
    | none => ""
    | some t =>
        if t.line = 0 then ""
        else
          " (line " ++ Text.Numeral.write t.line ++ ", col " ++ Text.Numeral.write t.column ++ ")"
  "ParseError: " ++ message ++ place

/-- The report of an error. -/
def text (e : ParseError) : String :=
  report e.cause.message e.token

end ParseError

end FnLang
