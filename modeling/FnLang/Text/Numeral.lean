/- # FnLang.Text.Numeral — decimal numerals, written and read.

Writing is canonical: digits without leading zeros, after a minus sign for a negative number.
Reading is generous.  Blanks may surround the numeral, one sign may precede it, its digits may come
from any scripts and a single underscore may stand between two digits.  A numeral of more than
`maxDigits` digits is refused, whatever its value; leading zeros count.
-/
import FnLang.Text.Blank
import FnLang.Text.Digit

namespace FnLang.Text.Numeral

/-! ## Writing -/

/-- The canonical numeral of an integer. -/
def write : Int → String
  | .ofNat n => String.ofList (Nat.toDigits 10 n)
  | .negSucc n => String.ofList ('-' :: Nat.toDigits 10 (n + 1))

/-! ## Reading -/

/-- The most digits a numeral may have. -/
def maxDigits : Nat := 4300

/-- The blanks that may surround a numeral: all but the four information separators. -/
def isSurround (c : Char) : Bool :=
  isBlank c && !(0x1C ≤ c.toNat && c.toNat ≤ 0x1F)

/-- The values of digits in which single underscores may stand between two digits. -/
def digits? : List Char → Option (List Nat)
  | [] => none
  | [c] => (decimalValue? c).map ([·])
  | c :: '_' :: rest => do
      let d ← decimalValue? c
      let ds ← digits? rest
      return d :: ds
  | c :: rest => do
      let d ← decimalValue? c
      let ds ← digits? rest
      return d :: ds

/-- The number that decimal digits denote. -/
def value (ds : List Nat) : Nat :=
  ds.foldl (fun n d => 10 * n + d) 0

/-- The number that unsigned digits denote, if they are well written and not too many. -/
def unsigned? (cs : List Char) : Option Nat := do
  let ds ← digits? cs
  if ds.length ≤ maxDigits then some (value ds) else none

/-- The number that digits after an optional sign denote. -/
def signed? : List Char → Option Int
  | '-' :: rest => (unsigned? rest).map fun n => -(n : Int)
  | '+' :: rest => (unsigned? rest).map fun n => (n : Int)
  | rest => (unsigned? rest).map fun n => (n : Int)

/-- The number that a numeral denotes. -/
def read? (s : String) : Option Int :=
  signed? (trimBy isSurround s.toList)

/-! ## 32-bit literals -/

/-- The least and the greatest value of an integer literal. -/
def minLiteral : Int := -2147483648
def maxLiteral : Int := 2147483647

/-- Why a text denotes no integer literal. -/
inductive Fault where
  | malformed
  | outOfRange
  deriving DecidableEq, Repr

/-- The value of an integer literal: a numeral within the signed 32-bit range. -/
def readLiteral (s : String) : Except Fault Int :=
  match read? s with
  | none => .error .malformed
  | some v => if minLiteral ≤ v ∧ v ≤ maxLiteral then .ok v else .error .outOfRange

end FnLang.Text.Numeral
