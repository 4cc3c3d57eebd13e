/- # FnLang.Stream — a text with a position that can be read from and looked around in.

A stream keeps the whole text, a position in it and the place that the position has.  The position
is any integer.  From the end of the text on there is nothing to read.  Before the start there is
nothing to see, but reading wraps around: position `-k` reads the `k`-th character from the end, if
there are so many.  A position so far before the start that a machine word of 64 bits does not hold
it is no index at all, and reading says so.

From a position in the text the lexer's operations are those of `Input` on the characters from there
on.  Before the start there is no trivia and no symbol to be seen, and the next token is the illegal
token of the one character read.
-/
import FnLang.Lexer
import FnLang.Text.Numeral

namespace FnLang

/-- Why a stream cannot be read. -/
inductive StreamFault where
  /-- The position is at the end of the text or beyond. -/
  | pastEnd (position line : Int)
  /-- The position is further before the start than the text is long. -/
  | outOfRange
  /-- The position is further before the start than any text could be long. -/
  | noIndex
  deriving DecidableEq, Repr

def StreamFault.message : StreamFault → String
  | pastEnd position line =>
      "CharacterStreamError: Attempted to read past end of source at position=<" ++
        Text.Numeral.write position ++ ">, line=<" ++ Text.Numeral.write line ++ ">"
  | outOfRange => "string index out of range"
  | noIndex => "cannot fit \x27int\x27 into an index-sized integer"

/-- A text, a position and its place. -/
structure Stream where
  source : List Char
  position : Int := 0
  location : Location := {}
  deriving DecidableEq, Repr

namespace Stream

/-! ## Characters -/

/-- A whole source text. -/
def ofSource (source : String) : Stream :=
  { source := source.toList }

/-- Whether there is nothing more to read. -/
def atEnd (s : Stream) : Bool :=
  s.source.length ≤ s.position

/-- The character at an index of the text. -/
def charAt? (s : Stream) (index : Int) : Option Char :=
  if index < 0 then none else s.source[index.toNat]?

/-- The character at an offset from the position, without moving. -/
def peek? (s : Stream) (offset : Int) : Option Char :=
  s.charAt? (s.position + offset)

/-- The least index of a text, counted from its end. -/
def leastIndex : Int := -0x8000000000000000

/-- Reads a character.  A stream that cannot be read stays as it is. -/
def next (s : Stream) : Except StreamFault (Char × Stream) :=
  if s.atEnd then .error (.pastEnd s.position s.location.line)
  else if s.position < leastIndex then .error .noIndex
  else
    let index := if s.position < 0 then s.position + s.source.length else s.position
    match s.charAt? index with
    | none => .error .outOfRange
    | some c => .ok (c, { s with position := s.position + 1, location := s.location.step c })

/-- The stream at the first character of its text. -/
def rewind (s : Stream) : Stream :=
  { source := s.source }

/-- Reading moves on by one character. -/
theorem position_of_next {s t : Stream} {c : Char} (h : s.next = .ok (c, t)) :
    t.position = s.position + 1 := by
  unfold next at h
  split at h
  · simp at h
  split at h
  · simp at h
  dsimp only at h
  split at h
  · simp at h
  · simp only [Except.ok.injEq, Prod.mk.injEq] at h
    rw [← h.2]

/-! ## Lexemes -/

/-- The characters from the position on, with their place. -/
def input (s : Stream) : Input :=
  { rest := s.source.drop s.position.toNat, location := s.location }

/-- The stream moved to where an input that was reached from its own stands. -/
def moveTo (s : Stream) (i : Input) : Stream :=
  { s with
    position := s.position + (s.input.rest.length - i.rest.length : Nat)
    location := i.location }

/-- Moves over trivia. -/
def skipTrivia (s : Stream) : Stream :=
  if s.position < 0 then s else s.moveTo s.input.skipTrivia

/-- Moves over the rest of the line. -/
def skipLine (s : Stream) : Stream :=
  s.moveTo (s.input.after (s.input.rest.takeWhile (· != '\n')))

/-- Moves over the rest of a comment: up to the end of the line, from the start of the text if the
position is before it. -/
def skipComment (s : Stream) : Except StreamFault Stream :=
  if s.position < 0 then
    match _ : s.next with
    | .error e => .error e
    | .ok (_, t) => t.skipComment
  else .ok s.skipLine
termination_by s.position.natAbs
decreasing_by
  have := position_of_next ‹_›
  omega

/-- Reads the longest symbol at the position, if there is one. -/
def symbol? (s : Stream) : Option (Token × Stream) :=
  if s.position < 0 then none
  else (Lexeme.symbol? s.input.rest).map fun x =>
    (s.input.tokenHere x.kind x.text, s.moveTo (s.input.after x.slice))

/-- Reads the next token. -/
def nextToken (s : Stream) : Except StreamFault (Token × Stream) :=
  if s.position < 0 then
    match s.next with
    | .error e => .error e
    | .ok (c, t) => .ok (s.input.tokenHere .illegal [c], t)
  else .ok (s.input.nextToken.1, s.moveTo s.input.nextToken.2)

/-- The tokens up to the end of input, which is left out, and the stream at its end. -/
def tokens (s : Stream) : Except StreamFault (List Token × Stream) :=
  if s.position < 0 then
    match _ : s.next with
    | .error e => .error e
    | .ok (c, t) =>
        match t.tokens with
        | .error e => .error e
        | .ok (ts, u) => .ok (s.input.tokenHere .illegal [c] :: ts, u)
  else
    .ok (s.input.tokens.dropLast, s.moveTo (s.input.after s.input.rest))
termination_by s.position.natAbs
decreasing_by
  have := position_of_next ‹_›
  omega

end Stream

end FnLang
