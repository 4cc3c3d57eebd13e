/- # FnLang.Parse.Program — programs, and recovery after an error.

A program is statements up to the end of input.  A statement that cannot be parsed is recorded as an
error; the rest of it is skipped and parsing goes on, so one bad statement hides no other.  What is
recorded for each statement is its *outcome*, in the order of the input.

Skipping follows the braces.  It stops on a semicolon outside every block, and on a brace that
closes the last block the statement had open, unless what follows still belongs to the statement.
-/
import FnLang.Parse.Expression

namespace FnLang

/-! ## Recovery -/

namespace Kind

/-- The kinds that go on with a statement after a block of it has been closed. -/
def continuesStatement (k : Kind) : Bool :=
  k == .elseWord || k == .comma || k == .rparen || Priority.lowest.level < k.priority.level

end Kind

/-- What skipping does with a token. -/
inductive Skip where
  /-- Stop here. -/
  | stop
  /-- Stop after the semicolon that comes next. -/
  | takeSemicolon
  /-- Go on, with as many blocks open. -/
  | goOn (depth : Nat)
  deriving DecidableEq, Repr

/-- What skipping does with a token of kind `current` before one of kind `next`, when `depth` blocks
are open before it. -/
def Skip.at (current next : Kind) (depth : Nat) : Skip :=
  match current, depth with
  | .lbrace, _ => .goOn (depth + 1)
  | .semicolon, 0 => .stop
  | .rbrace, 0 => .stop
  | .rbrace, 1 =>
      if next = .semicolon then .takeSemicolon
      else if next.continuesStatement then .goOn 0
      else .stop
  | .rbrace, _ => .goOn (depth - 1)
  | _, _ => .goOn depth

namespace Cursor

/-- Skips the rest of a statement of which `depth` blocks are open. -/
def skip (depth : Nat) (c : Cursor) : Cursor :=
  match Skip.at c.current.kind c.lookahead.kind depth with
  | .stop => c
  | .takeSemicolon => c.advance?.getD c
  | .goOn depth =>
      match _ : c.advance? with
      | none => c
      | some d => d.skip depth
termination_by c.remaining
decreasing_by exact remaining_lt_of_advance? ‹_›

/-- Skips the rest of a failed statement; afterwards no block counts as open. -/
def recover (c : Cursor) : Cursor :=
  skip c.depth { c with depth := 0 }

theorem remaining_skip_le (depth : Nat) (c : Cursor) : (c.skip depth).remaining ≤ c.remaining := by
  fun_induction skip depth c with
  | case1 => exact Nat.le_refl _
  | case2 depth c =>
    cases h : c.advance? with
    | none => exact Nat.le_refl _
    | some d => exact Nat.le_of_lt (remaining_lt_of_advance? h)
  | case3 => exact Nat.le_refl _
  | case4 _ c _ _ d h ih => exact Nat.le_trans ih (Nat.le_of_lt (remaining_lt_of_advance? h))

theorem remaining_recover_le (c : Cursor) : c.recover.remaining ≤ c.remaining :=
  remaining_skip_le _ _

end Cursor

/-! ## Programs -/

/-- What is recorded for a statement: the statement, or why it could not be parsed. -/
abbrev Outcome := Except ParseError Node

/-- The reading of one statement: the cursor on its first token, what came of it, and the cursor on
its last token. -/
structure Attempt where
  start : Cursor
  outcome : Outcome
  stop : Cursor

namespace Cursor

/-- Reads one statement from its first token on, with expressions at most `limit` deep inside one
another, and skips the rest of it if that fails. -/
def attempt (c : Cursor) (limit : Nat := Parse.nestingLimit) : Attempt :=
  match (Parse.statement (Parse.expression limit)).run c with
  | (.ok s, d) => { start := c, outcome := .ok s, stop := d }
  | (.error e, d) => { start := c, outcome := .error e, stop := d.recover }

theorem start_attempt (c : Cursor) (limit : Nat) : (c.attempt limit).start = c := by
  unfold attempt
  split <;> rfl

/-- To read a statement leaves no more than there was. -/
theorem remaining_attempt_le (c : Cursor) (limit : Nat) :
    (c.attempt limit).stop.remaining ≤ c.remaining := by
  have h := (Parse.statement (Parse.expression limit)).remaining_run_le c
  unfold attempt
  split
  · next hs => rwa [hs] at h
  · next d hs =>
    rw [hs] at h
    exact Nat.le_trans (remaining_recover_le d) h

/-- Reads statements up to the end of input. -/
def attempts (c : Cursor) (limit : Nat := Parse.nestingLimit) : List Attempt :=
  match _ : c.advance? with
  | none => []
  | some d => d.attempt limit :: (d.attempt limit).stop.attempts limit
termination_by c.remaining
decreasing_by
  exact Nat.lt_of_le_of_lt (remaining_attempt_le _ _) (remaining_lt_of_advance? ‹_›)

/-- The cursor after reading statements up to the end of input. -/
def finish (c : Cursor) (limit : Nat := Parse.nestingLimit) : Cursor :=
  ((c.attempts limit).getLast?.map Attempt.stop).getD c

end Cursor

/-- The result of parsing a program. -/
structure ParseResult where
  outcomes : List Outcome

namespace ParseResult

/-- The statements that were parsed, in the order of the input. -/
def statements (r : ParseResult) : List Node :=
  r.outcomes.filterMap fun
    | .ok s => some s
    | .error _ => none

/-- The errors of the statements that were not, in the order of the input. -/
def errors (r : ParseResult) : List ParseError :=
  r.outcomes.filterMap fun
    | .ok _ => none
    | .error e => some e

/-- The tree of the statements that were parsed. -/
def program (r : ParseResult) : Node :=
  .program r.statements

/-- Whether every statement was parsed. -/
def ok (r : ParseResult) : Bool :=
  r.errors.isEmpty

/-- How many statements were parsed and how many were not. -/
def summary (r : ParseResult) : String :=
  "ParseResult(statements=" ++ Text.Numeral.write r.statements.length ++ ", errors=" ++
    Text.Numeral.write r.errors.length ++ ")"

end ParseResult

/-- Parses the tokens after a cursor. -/
def Cursor.parse (c : Cursor) (limit : Nat := Parse.nestingLimit) : ParseResult :=
  ⟨(c.attempts limit).map Attempt.outcome⟩

/-- Parses the tokens of a source from its start. -/
def TokenSource.parse (source : TokenSource) (limit : Nat := Parse.nestingLimit) : ParseResult :=
  (Cursor.start source).parse limit

/-- Parses a text, reading its tokens on demand. -/
def parseText (source : String) (limit : Nat := Parse.nestingLimit) : ParseResult :=
  (TokenSource.ofText source).parse limit

/-- Parses listed tokens. -/
def parseTokens (tokens : List Token) (limit : Nat := Parse.nestingLimit) : ParseResult :=
  (TokenSource.ofList tokens).parse limit

end FnLang
