/- # FnLang.Text.Blank — blank characters, and trimming them.

The blank characters are those of the bidirectional types WS, B and S together with the space
separators: the ASCII blanks and information separators, the next-line control, the no-break space
and the spaces and line separators of the general punctuation block.
-/
import FnLang.Text.CharSet

namespace FnLang.Text

/-- The blank characters. -/
def blanks : CharSet := ⟨
  [(0x9, 0xD), (0x1C, 0x20), (0x85, 0x85), (0xA0, 0xA0), (0x1680, 0x1680), (0x2000, 0x200A),
   (0x2028, 0x2029), (0x202F, 0x202F), (0x205F, 0x205F), (0x3000, 0x3000)]⟩

/-- Blank characters separate tokens and mean nothing else. -/
def isBlank (c : Char) : Bool :=
  blanks.contains c

/-! ## Trimming -/

/-- Removes the characters of a class at both ends. -/
def trimBy (p : Char → Bool) (cs : List Char) : List Char :=
  ((cs.dropWhile p).reverse.dropWhile p).reverse

/-- A text without the blanks at its two ends. -/
def trim (s : String) : String :=
  String.ofList (trimBy isBlank s.toList)

@[simp] theorem trimBy_nil (p : Char → Bool) : trimBy p [] = [] := rfl

/-- What starts and ends outside the class is left alone. -/
theorem trimBy_eq_self {p : Char → Bool} {cs : List Char}
    (hfirst : ∀ c ∈ cs.head?, p c = false) (hlast : ∀ c ∈ cs.getLast?, p c = false) :
    trimBy p cs = cs := by
  have drop_eq_self : ∀ {l : List Char}, (∀ c ∈ l.head?, p c = false) → l.dropWhile p = l
    | [], _ => rfl
    | c :: l, h => by simp [h c (by simp)]
  rw [trimBy, drop_eq_self hfirst, drop_eq_self (by simpa using hlast), List.reverse_reverse]

/-- Trimming only removes. -/
theorem mem_of_mem_trimBy {p : Char → Bool} {cs : List Char} {c : Char}
    (h : c ∈ trimBy p cs) : c ∈ cs := by
  rw [trimBy, List.mem_reverse] at h
  have h' := List.dropWhile_subset p h
  rw [List.mem_reverse] at h'
  exact List.dropWhile_subset p h'

end FnLang.Text
