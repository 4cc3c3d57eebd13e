/- # FnLang.Cursor — a window of two tokens that moves over a token source.

A token source hands out tokens one at a time, for ever: at its end it repeats the end of input.
The cursor shows the current token and the one after it, has fetched no further, and never moves
back. It also counts the blocks that are open where it stands.

`Cursor.remaining` measures what is left.  Every move makes it smaller (`remaining_lt_of_advance?`),
which is why the loops of the parser end.
-/
import FnLang.Lexer

namespace FnLang

/-- A token that says that the input has ended. -/
abbrev EndToken := { t : Token // t.kind = .eof }

/-- Where tokens come from: a text that is read on demand, or a list.  After its list a list source
repeats the last end token seen in it, `ending` to begin with. -/
inductive TokenSource where
  | text (input : Input)
  | list (pending : List Token) (ending : EndToken)

namespace TokenSource

/-- The source of a text's tokens. -/
def ofText (source : String) : TokenSource :=
  text (Input.ofSource source)

/-- The source of listed tokens. -/
def ofList (tokens : List Token) : TokenSource :=
  list tokens ⟨Token.ending, rfl⟩

/-- The next token, and the source after it. -/
def pull : TokenSource → Token × TokenSource
  | text input => (input.nextToken.1, text input.nextToken.2)
  | list [] ending => (ending, list [] ending)
  | list (t :: pending) ending =>
      (t, list pending (if h : t.kind = .eof then ⟨t, h⟩ else ending))

/-- The next `n` tokens. -/
def take : (n : Nat) → TokenSource → List Token
  | 0, _ => []
  | n + 1, s => s.pull.1 :: take n s.pull.2

/-- A bound on the tokens before the end of input. -/
def remaining : TokenSource → Nat
  | text input => input.rest.length
  | list pending _ => pending.length

theorem remaining_pull_lt {s : TokenSource} (h : s.pull.1.kind ≠ .eof) :
    s.pull.2.remaining < s.remaining := by
  match s with
  | text input => exact Input.length_nextToken_lt h
  | list [] ending => exact absurd ending.2 h
  | list (_ :: _) _ => simp [pull, remaining]

end TokenSource

/-- The current token, the one after it, what comes later, and how many blocks are open. -/
structure Cursor where
  source : TokenSource
  current : Token
  lookahead : Token
  depth : Nat

namespace Cursor

/-- The cursor before the first token. -/
def start (source : TokenSource) : Cursor :=
  { source := source.pull.2, current := Token.ending, lookahead := source.pull.1, depth := 0 }

/-- Moves on by one token, unless the next one is the end of input. -/
def advance? (c : Cursor) : Option Cursor :=
  if c.lookahead.kind = .eof then none
  else some
    { c with
      source := c.source.pull.2
      current := c.lookahead
      lookahead := c.source.pull.1 }

/-- A bound on the tokens after the current one. -/
def remaining (c : Cursor) : Nat :=
  if c.lookahead.kind = .eof then 0 else c.source.remaining + 1

theorem advance?_eq_none_iff {c : Cursor} : c.advance? = none ↔ c.lookahead.kind = .eof := by
  simp [advance?]

theorem current_of_advance? {c d : Cursor} (h : c.advance? = some d) : d.current = c.lookahead := by
  unfold advance? at h
  split at h
  · simp at h
  · simp only [Option.some.injEq] at h
    subst h
    rfl

/-- Moving on leaves less. -/
theorem remaining_lt_of_advance? {c d : Cursor} (h : c.advance? = some d) :
    d.remaining < c.remaining := by
  unfold advance? at h
  split at h
  · simp at h
  · next hc =>
    simp only [Option.some.injEq] at h
    subst h
    simp only [remaining, if_neg hc]
    split
    · omega
    · next hpull =>
      have := TokenSource.remaining_pull_lt hpull
      omega

end Cursor

end FnLang
