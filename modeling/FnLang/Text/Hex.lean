/- # FnLang.Text.Hex — fixed-width hexadecimal numerals.

Escapes name a code point by its lower case hexadecimal digits, filled up with zeros to the width
that the escape prescribes.
-/

namespace FnLang.Text

/-- The last `width` hexadecimal digits of `n`, most significant first. -/
def hex : (width : Nat) → (n : Nat) → List Char
  | 0, _ => []
  | width + 1, n => hex width (n / 16) ++ [Nat.digitChar (n % 16)]

@[simp] theorem length_hex (width n : Nat) : (hex width n).length = width := by
  induction width generalizing n with
  | zero => rfl
  | succ width ih => simp [hex, ih]

end FnLang.Text
