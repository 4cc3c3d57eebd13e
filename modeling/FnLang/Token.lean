/- # FnLang.Token — tokens and places in a text.

A token carries its kind, its text and the line and column where it starts.  Lines and columns count
from one in a source text; a token made without a place has zeros there.
-/
import FnLang.Kind
import FnLang.Text.Quoted

namespace FnLang

/-- A token of the language. -/
structure Token where
  kind : Kind
  text : String
  line : Int := 0
  column : Int := 0
  deriving DecidableEq, Repr

namespace Token

/-- The end of input, without a place. -/
def ending : Token := { kind := .eof, text := "" }

/-- The form of a token in listings: its kind's name and its quoted text. -/
def display (t : Token) : String :=
  "Token(" ++ t.kind.name ++ ", " ++ Text.quoted t.text ++ ")"

end Token

/-- A place in a text. -/
structure Location where
  line : Int := 1
  column : Int := 1
  deriving DecidableEq, Repr

namespace Location

/-- The place after a character: a line feed starts the next line. -/
def step (l : Location) (c : Char) : Location :=
  if c = '\n' then { line := l.line + 1, column := 1 } else { l with column := l.column + 1 }

/-- The place after some characters. -/
def after (l : Location) (cs : List Char) : Location :=
  cs.foldl step l

@[simp] theorem after_nil (l : Location) : l.after [] = l := rfl

@[simp] theorem after_cons (l : Location) (c : Char) (cs : List Char) :
    l.after (c :: cs) = (l.step c).after cs := rfl

theorem after_append (l : Location) (cs ds : List Char) :
    l.after (cs ++ ds) = (l.after cs).after ds :=
  List.foldl_append

end Location

end FnLang
