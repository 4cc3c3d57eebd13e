/- # FnLang.Repl.Session — an interactive session.

A session reads entries.  An entry is empty, a comment, a command that switches a mode, or source
text that is parsed and shown: in tokens mode its tokens first, then every statement with, in
verbose mode, its data, and last every error.

`Session.step` is the reaction to one event and `transcript` all that a session writes.
-/
import FnLang.Node.Data
import FnLang.Node.Render
import FnLang.Parse.Program
import FnLang.Repl.Entry

namespace FnLang.Repl

/-! ## Entries -/

/-- What a session shows besides statements and errors. -/
structure Modes where
  verbose : Bool := false
  tokens : Bool := false
  deriving DecidableEq, Repr

/-- A text as one line of output. -/
def outputLine (s : String) : String :=
  s ++ "\n"

/-- The lower case form of a character, where that form is an ASCII letter: besides the capital
letters of ASCII only the Kelvin sign has one. -/
def asciiLower (c : Char) : Char :=
  if c = '\u212a' then 'k' else c.toLower

/-- A command word is recognised in any letter case. -/
def isCommand (word text : String) : Bool :=
  text.toList.map asciiLower == word.toList

def modeLine (mode : String) (on : Bool) : String :=
  outputLine ("[mode] >>> " ++ mode ++ " mode " ++ if on then "ON" else "OFF")

/-- The tokens of a text on one line, without the end of input. -/
def tokensLine (text : String) : String :=
  outputLine ("[tokens] >>> " ++ " ".intercalate ((tokenize text).dropLast.map Token.display))

/-- A statement as it is shown. -/
def statementLines (m : Modes) (s : Node) : String :=
  outputLine s.text ++ if m.verbose then outputLine s.toJson.write else ""

/-- An error as it is shown. -/
def errorLine (message : String) : String :=
  outputLine ("[error] >>> " ++ message)

/-- What is shown for source text. -/
def evaluate (m : Modes) (text : String) : String :=
  let result := parseText text
  (if m.tokens then tokensLine text else "") ++
    String.join (result.statements.map (statementLines m)) ++
    String.join (result.errors.map fun e => errorLine e.text)

/-- Entries that are passed over without a word. -/
def isPassedOver (text : String) : Bool :=
  text.isEmpty || ['/', '/'].isPrefixOf text.toList

/-- The reaction to an entry: the modes after it and what is shown. -/
def handle (m : Modes) (text : String) : Modes × String :=
  if isPassedOver text then (m, "")
  else if isCommand "verbose-mode" text then
    let m := { m with verbose := !m.verbose }
    (m, modeLine "Verbose" m.verbose)
  else if isCommand "tokens-mode" text then
    let m := { m with tokens := !m.tokens }
    (m, modeLine "Tokens" m.tokens)
  else (m, evaluate m text)

/-! ## Sessions -/

def banner : String :=
  outputLine "Moca REPL. Type \x27exit\x27 or \x27quit\x27 to leave."

def farewell : String :=
  outputLine "Exiting Moca REPL."

/-- A session that waits for a line. -/
structure Session where
  modes : Modes
  pending : Pending := {}
  deriving DecidableEq, Repr

namespace Session

/-- The reaction to an event, `none` being the end of the input: what is shown, and the session that
waits for the next line unless this one is over.  A session that is cut off ends on a line of its
own. -/
def step (s : Session) : Option Event → String × Option Session
  | none | some .interrupt => ("\n" ++ farewell, none)
  | some (.line l) =>
      match s.pending.read l with
      | .leave => (farewell, none)
      | .unfinished pending => ("", some { s with pending })
      | .entry text =>
          let (modes, shown) := handle s.modes text
          (shown, some { modes })

/-- All that a waiting session writes, its prompts included. -/
def transcript (s : Session) : List Event → String
  | [] => s.pending.prompt ++ (s.step none).1
  | e :: events =>
      match s.step (some e) with
      | (shown, none) => s.pending.prompt ++ shown
      | (shown, some t) => s.pending.prompt ++ shown ++ t.transcript events

end Session

/-- All that a session writes from its start on. -/
def transcript (modes : Modes) (events : List Event) : String :=
  banner ++ Session.transcript { modes } events

end FnLang.Repl
