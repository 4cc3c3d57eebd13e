/- # FnLang.Text.CharSet — sets of characters given by ranges of code points.

The lexical classes of the language are Unicode properties: a name may hold any letter, a number any
digit.  Such a property is a list of inclusive code point ranges in ascending order, and membership
is a search through that list.  The tables themselves stand in the modules named for the property,
each behind a test that answers for ASCII without looking at its table.
-/

namespace FnLang.Text

/-- A set of characters, as inclusive ranges of code points in ascending order. -/
structure CharSet where
  ranges : List (Nat × Nat)

namespace CharSet

/-- A character belongs to the set when one of the ranges spans its code point. -/
def contains (s : CharSet) (c : Char) : Bool :=
  s.ranges.any fun r => r.1 ≤ c.toNat && c.toNat ≤ r.2

theorem contains_eq_true_iff {s : CharSet} {c : Char} :
    s.contains c = true ↔ ∃ r ∈ s.ranges, r.1 ≤ c.toNat ∧ c.toNat ≤ r.2 := by
  simp [contains]

end CharSet

end FnLang.Text
