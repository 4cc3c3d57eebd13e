/- # FnLang.Json — plain data and its indented text.

The data are those of JSON without fractions; a record keeps its fields in the order given.
The text puts every entry of a list or record on a line of its own, two blanks deeper than the
brackets around it, and is pure ASCII: any other character is written by its UTF-16 units.
-/
import FnLang.Text.Hex
import FnLang.Text.Numeral

namespace FnLang

/-- Plain data. -/
inductive Json where
  | null
  | bool (b : Bool)
  | int (n : Int)
  | str (s : String)
  | list (items : List Json)
  | record (fields : List (String × Json))
  deriving Repr

namespace Json

/-! ## Strings -/

/-- The UTF-16 units of a code point. -/
def units16 (n : Nat) : List Nat :=
  if n < 0x10000 then [n]
  else [0xD800 + (n - 0x10000) / 0x400, 0xDC00 + (n - 0x10000) % 0x400]

/-- A character as it is written inside a string. -/
def escaped (c : Char) : List Char :=
  if c = '"' ∨ c = '\\' then ['\\', c]
  else if c = '\n' then ['\\', 'n']
  else if c = '\r' then ['\\', 'r']
  else if c = '\t' then ['\\', 't']
  else if c = '\x08' then ['\\', 'b']
  else if c = '\x0c' then ['\\', 'f']
  else if 32 ≤ c.toNat ∧ c.toNat < 127 then [c]
  else (units16 c.toNat).flatMap fun u => '\\' :: 'u' :: Text.hex 4 u

/-- A string between its quotation marks. -/
def writeString (s : String) : String :=
  String.ofList ('"' :: s.toList.flatMap escaped ++ ['"'])

/-! ## Layout -/

/-- A new line, indented to a depth. -/
def newLine (depth : Nat) : String :=
  String.ofList ('\n' :: List.replicate (2 * depth) ' ')

/-- Entries, each on its own line, between an opening and a closing bracket. -/
def bracketed (opening closing : String) (depth : Nat) (entries : List String) : String :=
  opening ++ newLine (depth + 1) ++ ("," ++ newLine (depth + 1)).intercalate entries ++
    newLine depth ++ closing

mutual

/-- The text of data that stand at a depth. -/
def writeAt (depth : Nat) : Json → String
  | null => "null"
  | bool b => if b then "true" else "false"
  | int n => Text.Numeral.write n
  | str s => writeString s
  | list [] => "[]"
  | list (x :: xs) => bracketed "[" "]" depth (writeItems (depth + 1) (x :: xs))
  | record [] => "\x7b\x7d"
  | record (f :: fs) => bracketed "\x7b" "\x7d" depth (writeFields (depth + 1) (f :: fs))

/-- The text of each item. -/
def writeItems (depth : Nat) : List Json → List String
  | [] => []
  | x :: xs => writeAt depth x :: writeItems depth xs

/-- The text of each field: its name and its data. -/
def writeFields (depth : Nat) : List (String × Json) → List String
  | [] => []
  | (name, x) :: fs => (writeString name ++ ": " ++ writeAt depth x) :: writeFields depth fs

end

/-- The text of data. -/
def write (x : Json) : String :=
  x.writeAt 0

/-! ## Sameness -/

/-- The number a number or truth value stands for. -/
def number? : Json → Option Int
  | int n => some n
  | bool b => some (if b then 1 else 0)
  | _ => none

mutual

/-- Whether data are the same.  A truth value is the same as the number it stands for, and records
are the same when the same names carry the same data, in whatever order. -/
def same : Json → Json → Bool
  | null, null => true
  | str a, str b => a == b
  | list as, list bs => sameItems as bs
  | record fs, record gs => fs.length == gs.length && sameFields fs gs
  | a, b => a.number?.isSome && a.number? == b.number?

/-- Whether two lists hold the same data in the same order. -/
def sameItems : List Json → List Json → Bool
  | [], [] => true
  | a :: as, b :: bs => same a b && sameItems as bs
  | _, _ => false

/-- Whether every field has its counterpart in the second list. -/
def sameFields (fs gs : List (String × Json)) : Bool :=
  match fs with
  | [] => true
  | (name, a) :: fs =>
      (match gs.lookup name with
        | some b => same a b
        | none => false) && sameFields fs gs

end

end Json

end FnLang
