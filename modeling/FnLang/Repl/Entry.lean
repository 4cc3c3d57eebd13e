/- # FnLang.Repl.Entry — lines gathered into entries.

An interactive session is fed line by line.  Lines are gathered until they hold no more opening than
closing braces; then they make an entry.  A line that asks to leave does so only where an
entry would begin.
-/
import FnLang.Text.Blank

namespace FnLang.Repl

/-- What can happen while the session waits for a line; the end of the input is the end of the list
of events. -/
inductive Event where
  | line (text : String)
  | interrupt
  deriving DecidableEq, Repr

/-- The lines of an unfinished entry; none where an entry would begin. -/
structure Pending where
  lines : List String := []
  deriving DecidableEq, Repr

/-- What a line makes of the lines before it. -/
inductive Reading where
  | unfinished (pending : Pending)
  | entry (text : String)
  | leave
  deriving DecidableEq, Repr

/-- How many more opening than closing braces a text holds. -/
def braceBalance (s : String) : Int :=
  (s.toList.count '\x7b' : Int) - s.toList.count '\x7d'

/-- How many more opening than closing braces some lines hold. -/
def openBraces (lines : List String) : Int :=
  lines.foldl (fun n line => n + braceBalance line) 0

/-- The words that end a session. -/
def isLeaving (line : String) : Bool :=
  Text.trim line == "exit" || Text.trim line == "quit"

namespace Pending

/-- The prompt for the next line. -/
def prompt (p : Pending) : String :=
  if p.lines.isEmpty then ">> " else ".. "

/-- Takes in a line.  The entry is finished when its lines hold no more opening than closing braces;
its text is its lines, joined and trimmed. -/
def read (p : Pending) (line : String) : Reading :=
  if p.lines.isEmpty && isLeaving line then .leave
  else
    let lines := p.lines ++ [line]
    if openBraces lines ≤ 0 then .entry (Text.trim ("\n".intercalate lines))
    else .unfinished { lines }

end Pending

/-- How waiting for an entry ends. -/
inductive EntryResult where
  | entry (text : String)
  | leave
  | interrupted
  | ended
  deriving DecidableEq, Repr

/-- Waits for an entry; gives the prompts that were shown and how it ended. -/
def readEntry (p : Pending) : List Event → String × EntryResult
  | [] => (p.prompt, .ended)
  | .interrupt :: _ => (p.prompt, .interrupted)
  | .line l :: events =>
      match p.read l with
      | .leave => (p.prompt, .leave)
      | .entry text => (p.prompt, .entry text)
      | .unfinished q =>
          let (prompts, result) := readEntry q events
          (p.prompt ++ prompts, result)

end FnLang.Repl
