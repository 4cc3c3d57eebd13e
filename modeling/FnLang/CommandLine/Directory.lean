/- # FnLang.CommandLine.Directory — a directory held in memory, and what a file name means in it.

A file name is a path, its parts between slashes.  The parts are followed one after the other from
the directory on, and the first that cannot be followed says what is wrong.  An empty part and a
single dot stay where they are, and two dots go up.

Nothing is known of what lies outside of the directory, above it or at the root of the file system:
two dots lead further up there, and any other part leads to nothing.  A path that comes from outside
does not find back.
-/
import FnLang.CommandLine.SourceFile

namespace FnLang.CommandLine

/-- What can lie at a place in a directory. -/
inductive Entry where
  | file (bytes : List Nat)
  | directory
  deriving DecidableEq, Repr

/-- A place in a directory: the names on the way down to it. -/
abbrev Place := List String

/-- A directory, as a list of what lies in it at any depth. -/
structure Directory where
  entries : List (Place × Entry)
  deriving DecidableEq, Repr

/-- The parts of a path. -/
def pathParts : List Char → List (List Char)
  | [] => [[]]
  | c :: cs =>
      if c = '/' then [] :: pathParts cs
      else match pathParts cs with
        | [] => [[c]]
        | part :: parts => (c :: part) :: parts

/-- The greatest number of bytes in a name. -/
def nameLimit : Nat := 255

/-- The least number of bytes that a path must not have. -/
def pathLimit : Nat := 4096

namespace Directory

/-- What lies at a place.  The places on the way down to an entry are directories. -/
def entry? (d : Directory) (place : Place) : Option Entry :=
  match d.entries.lookup place with
  | some entry => some entry
  | none => if d.entries.any fun e => place.isPrefixOf e.1 then some .directory else none

/-- Whether a place is that of a file, which nothing lies in. -/
def isFile (d : Directory) (place : Place) : Bool :=
  match d.entry? place with
  | some (.file _) => true
  | _ => false

/-- Follows a part of a path from a place, or from outside. -/
def follow (d : Directory) (here : Option Place) (part : String) :
    Except FileFault (Option Place) :=
  if here.any d.isFile then .error .notDirectory
  else if part = "" || part = "." then .ok here
  else if part = ".." then .ok (here.bind fun place =>
    if place.isEmpty then none else some place.dropLast)
  else if nameLimit < part.utf8ByteSize then .error .nameTooLong
  else match here with
    | none => .error .notFound
    | some place =>
        let there := place ++ [part]
        if (d.entry? there).isSome then .ok (some there) else .error .notFound

/-- The bytes of the file with a name. -/
def read (d : Directory) (name : String) : Except FileFault (List Nat) := do
  if name.toList.contains '\x00' then throw .nullInName
  if pathLimit ≤ name.utf8ByteSize then throw .nameTooLong
  let start := if name.toList.head? = some '/' then none else some []
  match (← ((pathParts name.toList).map String.ofList).foldlM d.follow start).bind d.entry? with
  | some (.file bytes) => return bytes
  | _ => throw .isDirectory

end Directory

end FnLang.CommandLine
