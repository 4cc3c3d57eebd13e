/- # FnLang.CommandLine.Arguments — flags and the one operand of a command line.

Six flags, none with a value, and one operand, the source.  A long flag may be shortened as long as
it stays unique, one-letter flags may be joined behind one dash, and after `--` nothing is a flag.
An argument that starts with a dash is nevertheless no flag if it is a dash alone, a negative
number, or holds a space and names no flag.

Arguments are first told apart, all of them, and then taken from left to right.  So an ambiguous
flag is reported before anything else, help is given as soon as an argument without a fault asks for
it, and arguments that nothing takes are reported at the end, together.
-/
import FnLang.Text.Digit
import FnLang.Text.Quoted

namespace FnLang.CommandLine

/-- The flags. -/
inductive Flag where
  | help
  | string
  | json
  | tokens
  | repl
  | verbose
  deriving DecidableEq, Repr

namespace Flag

/-- The flags in the order of the help text. -/
def all : List Flag := [help, string, json, tokens, repl, verbose]

/-- The long name of a flag. -/
def long : Flag → String
  | help => "--help" | string => "--string" | json => "--json" | tokens => "--tokens"
  | repl => "--repl" | verbose => "--verbose"

/-- The letter of a flag, if it has one. -/
def letter? : Flag → Option Char
  | help => some 'h'
  | string => some 's'
  | _ => none

/-- The names of a flag as messages give them. -/
def names (f : Flag) : String :=
  match f.letter? with
  | some c => String.ofList ['-', c, '/'] ++ f.long
  | none => f.long

/-- The flag with a letter. -/
def ofLetter? (c : Char) : Option Flag :=
  all.find? fun f => f.letter? == some c

/-- The flags whose long name starts with some characters. -/
def startingWith (cs : List Char) : List Flag :=
  all.filter fun f => cs.isPrefixOf f.long.toList

end Flag

/-- What is wrong with a command line. -/
inductive UsageFault where
  | ambiguous (argument : String) (candidates : List Flag)
  | ignoredValue (flag : Flag) (value : String)
  | unrecognized (arguments : List String)
  deriving DecidableEq, Repr

def UsageFault.message : UsageFault → String
  | ambiguous argument candidates =>
      "ambiguous option: " ++ argument ++ " could match " ++
        ", ".intercalate (candidates.map Flag.long)
  | ignoredValue flag value =>
      "argument " ++ flag.names ++ ": ignored explicit argument " ++ Text.quoted value
  | unrecognized arguments => "unrecognized arguments: " ++ " ".intercalate arguments

/-! ## Telling arguments apart -/

/-- An argument: a plain one, a flag by its long name, a flag by its letter, or one that looks like
a flag and is none.  What is attached to a flag comes along: what follows `=`, or what follows the
letter. -/
inductive Argument where
  | plain (text : String)
  | long (flag : Flag) (value : Option (List Char))
  | letter (flag : Flag) (value : Option (List Char))
  | unknown (text : String)
  deriving DecidableEq, Repr

/-- One or more decimal digits. -/
def isDigits (cs : List Char) : Bool :=
  !cs.isEmpty && cs.all Text.isDecimal

/-- The numbers among arguments that start with a dash, the dash left out: digits, with or without a
point before the last of them.  A line feed at the end does not count. -/
def isUnsignedNumber (cs : List Char) : Bool :=
  let body := if cs.getLast? = some '\n' then cs.dropLast else cs
  match body.dropWhile Text.isDecimal with
  | '.' :: fraction => isDigits fraction
  | [] => isDigits body
  | _ => false

/-- The name before the first `=` and the value after it, if there is one. -/
def splitValue (cs : List Char) : List Char × Option (List Char) :=
  match cs.dropWhile (· != '=') with
  | _ :: value => (cs.takeWhile (· != '='), some value)
  | [] => (cs, none)

/-- An argument that starts with two dashes. -/
def classifyLong (text : String) : Except UsageFault (Option Argument) :=
  let (name, value) := splitValue text.toList
  match Flag.all.find? fun f => f.long.toList == name with
  | some f => .ok (some (.long f value))
  | none =>
      match Flag.startingWith name with
      | [] => .ok none
      | [f] => .ok (some (.long f value))
      | candidates => .error (.ambiguous text candidates)

/-- What is attached to a letter.  An `=` right after the letter does not count. -/
def attached : List Char → Option (List Char)
  | [] => none
  | '=' :: value => some value
  | value => some value

/-- Tells what an argument is. -/
def classify (text : String) : Except UsageFault Argument :=
  match text.toList with
  | '-' :: c :: tail => do
      let flag ←
        if c = '-' then classifyLong text
        else .ok ((Flag.ofLetter? c).map (.letter · (attached tail)))
      match flag with
      | some argument => return argument
      | none =>
          if isUnsignedNumber (c :: tail) || text.toList.contains ' ' then return .plain text
          else return .unknown text
  | _ => return .plain text

/-! ## Taking arguments -/

/-- What a command line asks for. -/
structure Settings where
  source : Option String := none
  isText : Bool := false
  json : Bool := false
  tokens : Bool := false
  repl : Bool := false
  verbose : Bool := false
  deriving DecidableEq, Repr

/-- A command line asks for help, or for a run. -/
inductive Request where
  | help
  | run (settings : Settings)
  deriving DecidableEq, Repr

/-- The flags of joined letters.  Whatever follows a letter has to be letters of flags; the rest
from the first other character on is a value, and no flag takes one. -/
def joinedFlags (flag : Flag) : List Char → Except UsageFault (List Flag)
  | [] => .ok [flag]
  | c :: rest =>
      match Flag.ofLetter? c with
      | none => .error (.ignoredValue flag (String.ofList (c :: rest)))
      | some next => do
          let flags ← joinedFlags next rest
          return flag :: flags

/-- The flags an argument gives. -/
def Argument.flags : Argument → Except UsageFault (List Flag)
  | plain _ | unknown _ => .ok []
  | long flag none | letter flag none => .ok [flag]
  | long flag (some value) => .error (.ignoredValue flag (String.ofList value))
  | letter flag (some []) => .error (.ignoredValue flag "")
  | letter flag (some (c :: rest)) => joinedFlags flag (c :: rest)

/-- Settings with a flag set. -/
def Settings.set (s : Settings) : Flag → Settings
  | .help => s
  | .string => { s with isText := true }
  | .json => { s with json := true }
  | .tokens => { s with tokens := true }
  | .repl => { s with repl := true }
  | .verbose => { s with verbose := true }

/-- What has been taken so far: the settings, the arguments left over, and whether the last argument
became the source. -/
structure Taken where
  settings : Settings := {}
  left : List String := []
  sourceIsLast : Bool := false

/-- Takes the arguments before `--`; `none` when help is asked for. -/
def takeArguments (t : Taken) : List Argument → Except UsageFault (Option Taken)
  | [] => .ok (some t)
  | .plain text :: rest =>
      if t.settings.source.isNone then
        takeArguments
          { t with settings := { t.settings with source := some text }, sourceIsLast := true } rest
      else takeArguments { t with left := t.left ++ [text], sourceIsLast := false } rest
  | .unknown text :: rest =>
      takeArguments { t with left := t.left ++ [text], sourceIsLast := false } rest
  | argument :: rest => do
      let flags ← argument.flags
      if flags.contains .help then return none
      else
        takeArguments
          { t with settings := flags.foldl Settings.set t.settings, sourceIsLast := false } rest

/-- Takes the arguments after `--`, which are all plain.  The `--` itself is left over if the source
has been taken before and not by the argument right before it. -/
def Taken.finish (t : Taken) : Option (List String) → Taken
  | none => t
  | some rest =>
      if t.settings.source.isSome then
        { t with left := t.left ++ (if t.sourceIsLast then rest else "--" :: rest) }
      else match rest with
        | [] => t
        | source :: rest =>
            { t with settings := { t.settings with source := some source }, left := t.left ++ rest }

/-- The arguments before the first `--`, and those after it. -/
def splitAtDashes (args : List String) : List String × Option (List String) :=
  match args.dropWhile (· != "--") with
  | _ :: rest => (args.takeWhile (· != "--"), some rest)
  | [] => (args, none)

/-- What the arguments of a command line ask for. -/
def request (args : List String) : Except UsageFault Request := do
  let (before, after) := splitAtDashes args
  let arguments ← before.mapM classify
  match ← takeArguments {} arguments with
  | none => return .help
  | some taken =>
      match taken.finish after with
      | { settings, left := [], .. } => return .run settings
      | { left, .. } => .error (.unrecognized left)

end FnLang.CommandLine
