/- # FnLang.Parse.Basic — parsers over a cursor.

A parser runs from a cursor, gives a value or an error, and leaves the cursor where it stopped, also
after an error.  It never gains tokens: that it leaves no more than it found is part of the type, so
a loop that moves on between two runs of any parser ends.

Two loops cover the repetitions of the language.  `foldAhead` goes on while the next token continues
what was read; `itemsUntil` reads items up to a closing token.
-/
import FnLang.Cursor
import FnLang.ParseError

namespace FnLang

/-- A parser of values of type `α`. -/
@[ext]
structure Parse (α : Type) where
  run : Cursor → Except ParseError α × Cursor
  remaining_run_le : ∀ c, (run c).2.remaining ≤ c.remaining

namespace Parse

variable {α β : Type}

/-- To run a parser after moving on leaves less. -/
theorem remaining_lt_of_advance?_run {p : Parse α} {c d e : Cursor} {r : Except ParseError α}
    (hd : c.advance? = some d) (he : p.run d = (r, e)) : e.remaining < c.remaining := by
  have h := p.remaining_run_le d
  rw [he] at h
  exact Nat.lt_of_le_of_lt h (Cursor.remaining_lt_of_advance? hd)

/-- To move on after running a parser leaves less. -/
theorem remaining_lt_of_run_advance? {p : Parse α} {c d e : Cursor} {r : Except ParseError α}
    (hd : p.run c = (r, d)) (he : d.advance? = some e) : e.remaining < c.remaining := by
  have h := p.remaining_run_le c
  rw [hd] at h
  exact Nat.lt_of_lt_of_le (Cursor.remaining_lt_of_advance? he) h

/-! ## Sequencing -/

instance : Monad Parse where
  pure a := ⟨fun c => (.ok a, c), fun _ => Nat.le_refl _⟩
  bind p f :=
    { run := fun c =>
        match p.run c with
        | (.ok a, d) => (f a).run d
        | (.error e, d) => (.error e, d)
      remaining_run_le := fun c => by
        have h := p.remaining_run_le c
        split
        · next a d hp =>
          rw [hp] at h
          exact Nat.le_trans ((f a).remaining_run_le d) h
        · next e d hp => rwa [hp] at h }

@[simp] theorem run_pure (a : α) (c : Cursor) : (pure a : Parse α).run c = (.ok a, c) := rfl

theorem run_bind (p : Parse α) (f : α → Parse β) (c : Cursor) :
    (p >>= f).run c =
      match p.run c with
      | (.ok a, d) => (f a).run d
      | (.error e, d) => (.error e, d) := rfl

theorem run_bind_ok {p : Parse α} {c d : Cursor} {a : α} (f : α → Parse β)
    (h : p.run c = (.ok a, d)) : (p >>= f).run c = (f a).run d := by
  rw [run_bind, h]

theorem run_bind_error {p : Parse α} {c d : Cursor} {e : ParseError} (f : α → Parse β)
    (h : p.run c = (.error e, d)) : (p >>= f).run c = (.error e, d) := by
  rw [run_bind, h]

/-! ## Looking and moving -/

/-- The current token. -/
def current : Parse Token :=
  ⟨fun c => (.ok c.current, c), fun _ => Nat.le_refl _⟩

/-- The token after the current one. -/
def lookahead : Parse Token :=
  ⟨fun c => (.ok c.lookahead, c), fun _ => Nat.le_refl _⟩

/-- Stops with an error. -/
def fail (cause : Cause) (token : Option Token) : Parse α :=
  ⟨fun c => (.error ⟨cause, token⟩, c), fun _ => Nat.le_refl _⟩

/-- Moves on and tells whether there was a token to move to. -/
def advance : Parse Bool where
  run c :=
    match c.advance? with
    | none => (.ok false, c)
    | some d => (.ok true, d)
  remaining_run_le c := by
    split
    · exact Nat.le_refl _
    · next d h => exact Nat.le_of_lt (Cursor.remaining_lt_of_advance? h)

/-- Changes the count of open blocks. -/
def countBlocks (f : Nat → Nat) : Parse Unit :=
  ⟨fun c => (.ok (), { c with depth := f c.depth }), fun _ => Nat.le_refl _⟩

@[simp] theorem run_current (c : Cursor) : current.run c = (.ok c.current, c) := rfl

@[simp] theorem run_lookahead (c : Cursor) : lookahead.run c = (.ok c.lookahead, c) := rfl

@[simp] theorem run_fail (cause : Cause) (token : Option Token) (c : Cursor) :
    (fail cause token : Parse α).run c = (.error ⟨cause, token⟩, c) := rfl

theorem run_advance (c : Cursor) :
    advance.run c =
      match c.advance? with
      | none => (.ok false, c)
      | some d => (.ok true, d) := rfl

@[simp] theorem run_countBlocks (f : Nat → Nat) (c : Cursor) :
    (countBlocks f).run c = (.ok (), { c with depth := f c.depth }) := rfl

/-- Moves on, or says what is missing at the end of input. -/
def advanceTo (what : Wanted) : Parse Unit := do
  unless ← advance do
    fail (.missing what) (← lookahead)

/-- Moves on to a token of the given kind and gives that token. -/
def expect (kind : Kind) : Parse Token := do
  let next ← lookahead
  if next.kind = kind then
    let _ ← advance
    current
  else
    fail (.unexpected kind next.kind) next

/-- Moves on if the next token has the given kind, and tells whether it had. -/
def accept (kind : Kind) : Parse Bool := do
  if (← lookahead).kind = kind then
    let _ ← advance
    return true
  else
    return false

theorem run_advanceTo (what : Wanted) (c : Cursor) :
    (advanceTo what).run c =
      match c.advance? with
      | none => (.error ⟨.missing what, c.lookahead⟩, c)
      | some d => (.ok (), d) := by
  unfold advanceTo
  rw [run_bind, run_advance]
  cases c.advance? <;> rfl

theorem run_expect (kind : Kind) (c : Cursor) :
    (expect kind).run c =
      if c.lookahead.kind = kind then
        (.ok (c.advance?.getD c).current, c.advance?.getD c)
      else (.error ⟨.unexpected kind c.lookahead.kind, c.lookahead⟩, c) := by
  unfold expect
  rw [run_bind, run_lookahead]
  dsimp only
  split
  · rw [run_bind, run_advance]
    cases c.advance? <;> rfl
  · rfl

theorem run_accept (kind : Kind) (c : Cursor) :
    (accept kind).run c =
      if c.lookahead.kind = kind then (.ok true, c.advance?.getD c) else (.ok false, c) := by
  unfold accept
  rw [run_bind, run_lookahead]
  dsimp only
  split
  · rw [run_bind, run_advance]
    cases c.advance? <;> rfl
  · rfl

/-! ## Repetition -/

/-- The loop of `foldAhead`. -/
def runFoldAhead (next : Kind → Option (α → Parse α)) (a : α) (c : Cursor) :
    Except ParseError α × Cursor :=
  match next c.lookahead.kind with
  | none => (.ok a, c)
  | some step =>
      match _ : c.advance? with
      | none => (.ok a, c)
      | some d =>
          match _ : (step a).run d with
          | (.ok b, e) => runFoldAhead next b e
          | (.error err, e) => (.error err, e)
termination_by c.remaining
decreasing_by exact remaining_lt_of_advance?_run ‹_› ‹_›

theorem remaining_runFoldAhead_le (next : Kind → Option (α → Parse α)) (a : α) (c : Cursor) :
    (runFoldAhead next a c).2.remaining ≤ c.remaining := by
  fun_induction runFoldAhead next a c with
  | case1 | case2 => exact Nat.le_refl _
  | case3 a c step _ d hc b e hd ih =>
    exact Nat.le_trans ih (Nat.le_of_lt (remaining_lt_of_advance?_run hc hd))
  | case4 a c step _ d hc err e hd => exact Nat.le_of_lt (remaining_lt_of_advance?_run hc hd)

/-- Folds continuations into `a`: while `next` knows how the kind of the next token goes on, moves
on to that token and takes the step. -/
def foldAhead (next : Kind → Option (α → Parse α)) (a : α) : Parse α :=
  ⟨runFoldAhead next a, remaining_runFoldAhead_le next a⟩

/-- The loop of `itemsUntil`. -/
def runItemsUntil (closing : Kind) (unclosed : ParseError) (item : Parse α) (c : Cursor) :
    Except ParseError (List α) × Cursor :=
  if c.current.kind = closing then (.ok [], c)
  else
    match _ : item.run c with
    | (.error err, d) => (.error err, d)
    | (.ok a, d) =>
        match _ : d.advance? with
        | none => (.error unclosed, d)
        | some e =>
            match runItemsUntil closing unclosed item e with
            | (.ok as, f) => (.ok (a :: as), f)
            | (.error err, f) => (.error err, f)
termination_by c.remaining
decreasing_by exact remaining_lt_of_run_advance? ‹_› ‹_›

theorem remaining_runItemsUntil_le (closing : Kind) (unclosed : ParseError) (item : Parse α)
    (c : Cursor) : (runItemsUntil closing unclosed item c).2.remaining ≤ c.remaining := by
  fun_induction runItemsUntil closing unclosed item c with
  | case1 => exact Nat.le_refl _
  | case2 c _ err d hi | case3 c _ a d hi hd =>
    have h := item.remaining_run_le c
    rwa [hi] at h
  | case4 c _ a d hi e hd as f hf ih | case5 c _ a d hi e hd err f hf ih =>
    rw [hf] at ih
    exact Nat.le_trans ih (Nat.le_of_lt (remaining_lt_of_run_advance? hi hd))

/-- The items from the current token up to a token of the closing kind, which becomes the current
one.  If the input ends before that token, the error is `unclosed`. -/
def itemsUntil (closing : Kind) (unclosed : ParseError) (item : Parse α) : Parse (List α) :=
  ⟨runItemsUntil closing unclosed item, remaining_runItemsUntil_le closing unclosed item⟩

end Parse

end FnLang
