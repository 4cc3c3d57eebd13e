/- # FnLang.CommandLine.Command — what a command line does.

The arguments select a command.  A command that shows a source writes its program, its data or its
tokens, the errors apart, and says by its status whether every statement could be parsed; a source
that cannot be had and a command line that cannot be understood have a status of their own.
-/
import FnLang.CommandLine.Arguments
import FnLang.CommandLine.SourceFile
import FnLang.Repl.Session

namespace FnLang.CommandLine

/-! ## Commands -/

/-- What is shown of a source. -/
inductive View where
  | program
  | json
  | tokens
  deriving DecidableEq, Repr

/-- What to do. -/
inductive Command where
  | help
  | usage (fault : UsageFault)
  | session (modes : Repl.Modes)
  | text (view : View) (source : String)
  | file (view : View) (name : String)
  | unsupported
  deriving DecidableEq, Repr

/-- What settings show of a source: tokens rather than data, and data rather than the program. -/
def Settings.view (s : Settings) : View :=
  if s.tokens then .tokens else if s.json then .json else .program

/-- The command of some settings.  Without a source there is a session. -/
def Settings.command (s : Settings) : Command :=
  match s.source with
  | none => .session { verbose := s.verbose, tokens := s.tokens }
  | some source =>
      if s.repl then .session { verbose := s.verbose, tokens := s.tokens }
      else if s.isText then .text s.view source
      else if isSourceName source then .file s.view source
      else .unsupported

/-- The command of a command line. -/
def Command.ofArguments (args : List String) : Command :=
  match request args with
  | .error fault => .usage fault
  | .ok .help => .help
  | .ok (.run settings) => settings.command

/-! ## Reports -/

/-- What a command leaves: its exit status, and what it wrote.  A session ends without a status. -/
structure Report where
  status : Option Nat
  output : String := ""
  errors : String := ""
  deriving DecidableEq, Repr

def usageLine : String :=
  "usage: moca [-h] [-s] [--json] [--tokens] [--repl] [--verbose] [source]\n"

def helpText : String :=
  usageLine ++
  "\n" ++
  "positional arguments:\n" ++
  "  source        Filename or raw source (with -s)\n" ++
  "\n" ++
  "options:\n" ++
  "  -h, --help    show this help message and exit\n" ++
  "  -s, --string  Interpret source as literal string\n" ++
  "  --json        Print the AST as JSON\n" ++
  "  --tokens      Print the token stream instead of parsing\n" ++
  "  --repl        Launch interactive REPL instead of parsing\n" ++
  "  --verbose     Verbose REPL mode (if --repl)\n"

/-- A token in the listing of tokens: place, kind and text. -/
def tokenLine (t : Token) : String :=
  Repl.outputLine
    (Text.Numeral.write t.line ++ ":" ++ Text.Numeral.write t.column ++ "\t" ++ t.kind.name ++
      "\t" ++ t.text)

/-- Shows a source. -/
def View.report (view : View) (source : String) : Report :=
  match view with
  | .tokens =>
      { status := some 0, output := String.join ((tokenize source).dropLast.map tokenLine) }
  | .json | .program =>
      let result := parseText source
      { status := some (if result.ok then 0 else 1)
        output :=
          if view = .json then Repl.outputLine result.program.toJson.write
          else if result.statements.isEmpty then ""
          else Repl.outputLine result.program.text
        errors := String.join (result.errors.map fun e => Repl.errorLine e.text) }

/-- A command that could not do its work. -/
def Report.failure (message : String) : Report :=
  { status := some 2, errors := Repl.errorLine message }

/-- Carries out a command.  `read` gives the bytes of a file, and `events` is what a session is
fed. -/
def Command.report (read : String → Except FileFault (List Nat)) (events : List Repl.Event) :
    Command → Report
  | help => { status := some 0, output := helpText }
  | usage fault =>
      { status := some 2, errors := usageLine ++ "moca: error: " ++ fault.message ++ "\n" }
  | session modes => { status := none, output := Repl.transcript modes events }
  | text view source => view.report source
  | unsupported => .failure "Only .moca files are supported."
  | file view name =>
      match read name >>= decodeSource with
      | .ok source => view.report source
      | .error fault => .failure (fault.message name)

end FnLang.CommandLine
