/- # FnLang.CommandLine.SourceFile — the text of a source file.

A source file has a name of its own kind and holds UTF-8 text with any newlines.
-/
import FnLang.Text.Newline
import FnLang.Text.Quoted
import FnLang.Text.Utf8

namespace FnLang.CommandLine

/-- Whether a name is that of a source file. -/
def isSourceName (name : String) : Bool :=
  ['.', 'm', 'o', 'c', 'a'].isSuffixOf name.toList

/-- Why the text of a file cannot be had: the system refuses to read it, for a numbered reason, its
name cannot be passed to the system, or its bytes are no text. -/
inductive FileFault where
  | refused (number : Nat) (reason : String)
  | nullInName
  | encoding (fault : Text.Utf8.Fault)
  deriving DecidableEq, Repr

namespace FileFault

def notFound : FileFault := refused 2 "No such file or directory"

def forbidden : FileFault := refused 13 "Permission denied"

def notDirectory : FileFault := refused 20 "Not a directory"

def isDirectory : FileFault := refused 21 "Is a directory"

def nameTooLong : FileFault := refused 36 "File name too long"

/-- What is said of a file with a name. -/
def message (name : String) : FileFault → String
  | refused number reason =>
      "[Errno " ++ Text.Numeral.write number ++ "] " ++ reason ++ ": " ++ Text.quoted name
  | nullInName => "embedded null byte"
  | encoding fault => fault.message

end FileFault

/-- The text that the bytes of a file hold. -/
def decodeSource (bytes : List Nat) : Except FileFault String :=
  match Text.Utf8.decode bytes with
  | .ok cs => .ok (String.ofList (Text.unifyNewlines cs))
  | .error fault => .error (.encoding fault)

end FnLang.CommandLine
