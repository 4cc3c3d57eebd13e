/- # FnLang.Proofs.BlockCount — the count of open blocks counts the open blocks.

A block raises the count when it begins and lowers it when its brace is read, so a parser that gives a
value leaves the count as it was (`Parse.KeepsDepth`), one form at a time.  An error leaves it where it
stands, from any depth of the recursion: then the count is what recovery starts with, and it is the
number of braces among the tokens taken that are opened and not closed (`Breaks.depth_counts`).

An error may be found on the token under the cursor or on the one after it.  What is counted is the
same in both cases: the braces strictly before the token that the error is found on.
-/
import FnLang.Proofs.ErrorPosition
import FnLang.Proofs.Window

namespace FnLang

open Parse

/-! ## Parsers that give a value -/

namespace Parse

/-- Where the parser gives a value, as many blocks are open as before. -/
def KeepsDepth {α : Type} (p : Parse α) : Prop :=
  ∀ (c d : Cursor) (a : α), p.run c = (.ok a, d) → d.depth = c.depth

namespace KeepsDepth

variable {α β : Type}

/-! ### Moves -/

/-- A parser that keeps the count in any case. -/
theorem of_depth_run {p : Parse α} (h : ∀ c, (p.run c).2.depth = c.depth) : p.KeepsDepth := by
  intro c d a hrun
  rw [← h c, hrun]

theorem pure (a : α) : (Pure.pure a : Parse α).KeepsDepth :=
  of_depth_run fun _ => rfl

theorem bind {p : Parse α} {f : α → Parse β} (hp : p.KeepsDepth) (hf : ∀ a, (f a).KeepsDepth) :
    (p >>= f).KeepsDepth := by
  intro c e b h
  obtain ⟨a, d, ha, hb⟩ := exists_run_of_run_bind h
  rw [hf a d e b hb, hp c d a ha]

theorem current : Parse.current.KeepsDepth :=
  of_depth_run fun _ => rfl

theorem lookahead : Parse.lookahead.KeepsDepth :=
  of_depth_run fun _ => rfl

theorem fail (cause : Cause) (token : Option Token) :
    (Parse.fail cause token : Parse α).KeepsDepth :=
  of_depth_run fun _ => rfl

theorem advance : Parse.advance.KeepsDepth := by
  refine of_depth_run fun c => ?_
  cases hc : c.advance? with
  | none => rw [run_advance_of_none hc]
  | some d =>
      rw [run_advance_of_some hc]
      exact Cursor.depth_of_advance? hc

theorem advanceTo (w : Wanted) : (Parse.advanceTo w).KeepsDepth := by
  refine advance.bind fun moved => ?_
  cases moved with
  | true => exact pure ()
  | false => exact lookahead.bind fun t => fail _ _

theorem expect (k : Kind) : (Parse.expect k).KeepsDepth := by
  refine lookahead.bind fun t => ?_
  split
  · exact advance.bind fun _ => current
  · exact fail _ _

theorem accept (k : Kind) : (Parse.accept k).KeepsDepth := by
  refine lookahead.bind fun t => ?_
  split
  · exact advance.bind fun _ => pure true
  · exact pure false

/-! ### Repetition -/

/-- A fold keeps the count if its steps do: by induction on its run. -/
theorem foldAhead {next : Kind → Option (α → Parse α)} (a : α)
    (hnext : ∀ k step, next k = some step → ∀ a, (step a).KeepsDepth) :
    (Parse.foldAhead next a).KeepsDepth := by
  intro c f b h
  change runFoldAhead next a c = _ at h
  fun_induction runFoldAhead next a c with
  | case1 | case2 =>
      obtain ⟨-, rfl⟩ := Prod.mk.inj h
      rfl
  | case3 a c step hstep d hc b e he ih =>
      rw [ih h, hnext _ step hstep a d e b he, Cursor.depth_of_advance? hc]
  | case4 => simp at h

/-- The items up to a closing token, by induction on their run. -/
theorem itemsUntil {item : Parse α} {unclosed : ParseError} (closing : Kind)
    (hitem : item.KeepsDepth) : (Parse.itemsUntil closing unclosed item).KeepsDepth := by
  intro c g as h
  change runItemsUntil closing unclosed item c = _ at h
  fun_induction runItemsUntil closing unclosed item c generalizing as with
  | case1 =>
      obtain ⟨-, rfl⟩ := Prod.mk.inj h
      rfl
  | case2 | case3 | case5 => simp at h
  | case4 c _ a d hd e he as f hf ih =>
      obtain ⟨-, rfl⟩ := Prod.mk.inj h
      rw [ih _ hf, Cursor.depth_of_advance? he, hitem c d a hd]

/-! ### The forms of the language -/

section

variable {expression : Int → Parse Node} (h : ∀ least, (expression least).KeepsDepth)

include h in
theorem value : (Parse.value expression).KeepsDepth :=
  (h _).bind fun _ => (accept .semicolon).bind fun _ => pure _

include h in
theorem binding : (Parse.binding expression).KeepsDepth := by
  refine (expect .ident).bind fun name => ?_
  refine (expect .assign).bind fun _ => ?_
  refine (advanceTo .letValue).bind fun _ => ?_
  exact (value h).bind fun _ => pure _

include h in
theorem returning : (Parse.returning expression).KeepsDepth :=
  (advanceTo .returnValue).bind fun _ => (value h).bind fun _ => pure _

include h in
theorem expressionStatement : (Parse.expressionStatement expression).KeepsDepth :=
  (value h).bind fun _ => pure _

include h in
theorem statement : (Parse.statement expression).KeepsDepth := by
  refine current.bind fun t => ?_
  split
  · exact binding h
  · exact returning h
  · exact expressionStatement h

include h in
/-- Between the braces the count is one more: it is raised before the statements, which keep it, and
lowered after them. -/
theorem block : (Parse.block expression).KeepsDepth := by
  intro c e b hrun
  rw [run_block] at hrun
  cases hstatements : statementsAfter expression c.current (c.deepen 1) with
  | mk r f =>
      rw [hstatements] at hrun
      cases r with
      | error err => simp at hrun
      | ok ss =>
          obtain ⟨-, rfl⟩ := Prod.mk.inj hrun
          have hf : f.depth = c.depth + 1 := by
            cases hc : (c.deepen 1).advance? with
            | none => simp [statementsAfter_of_none hc] at hstatements
            | some d =>
                rw [statementsAfter_of_some hc] at hstatements
                rw [itemsUntil .rbrace (statement h) d f ss hstatements, Cursor.depth_of_advance? hc]
                rfl
          show f.depth - 1 = c.depth
          omega

theorem integerLiteral : Parse.integerLiteral.KeepsDepth := by
  refine current.bind fun t => ?_
  split
  · exact pure _
  · exact fail _ _
  · exact fail _ _

include h in
theorem unary : (Parse.unary expression).KeepsDepth := by
  refine current.bind fun operator => ?_
  exact (advanceTo _).bind fun _ => (h _).bind fun _ => pure _

include h in
theorem group : (Parse.group expression).KeepsDepth := by
  refine current.bind fun opening => ?_
  refine (advanceTo .groupBody).bind fun _ => ?_
  refine (h _).bind fun e => ?_
  refine lookahead.bind fun next => ?_
  refine (accept .rparen).bind fun closed => ?_
  cases closed with
  | true => exact pure e
  | false => exact (fail _ _).bind fun _ => pure e

include h in
theorem conditional : (Parse.conditional expression).KeepsDepth := by
  refine (expect .lparen).bind fun _ => ?_
  refine (advanceTo .condition).bind fun _ => ?_
  refine (h _).bind fun condition => ?_
  refine (expect .rparen).bind fun _ => ?_
  refine (expect .lbrace).bind fun _ => ?_
  refine (block h).bind fun consequence => ?_
  refine (accept .elseWord).bind fun more => ?_
  cases more with
  | true => exact (expect .lbrace).bind fun _ => (block h).bind fun _ => pure _
  | false => exact pure _

theorem listed {first next : Parse α} (hfirst : first.KeepsDepth) (hnext : next.KeepsDepth) :
    (Parse.listed first next).KeepsDepth := by
  refine (accept .rparen).bind fun closed => ?_
  cases closed with
  | true => exact pure []
  | false =>
      refine hfirst.bind fun item => ?_
      refine bind (foldAhead [item] fun k step hstep items => ?_) fun items => ?_
      · split at hstep
        · obtain rfl := Option.some.inj hstep
          exact hnext.bind fun _ => pure _
        · exact absurd hstep (by simp)
      · exact (expect .rparen).bind fun _ => pure _

theorem parameter : Parse.parameter.KeepsDepth :=
  (expect .ident).bind fun _ => pure _

theorem parameters : Parse.parameters.KeepsDepth :=
  listed parameter parameter

include h in
theorem function : (Parse.function expression).KeepsDepth := by
  refine (expect .lparen).bind fun _ => ?_
  refine parameters.bind fun ps => ?_
  exact (expect .lbrace).bind fun _ => (block h).bind fun _ => pure _

include h in
theorem operand : (Parse.operand expression).KeepsDepth := by
  refine current.bind fun t => ?_
  split
  · exact pure _
  · exact integerLiteral
  · exact pure _
  · exact group h
  · exact conditional h
  · exact function h
  · split
    · exact unary h
    · exact fail _ _

include h in
theorem argument (w : Wanted) : (Parse.argument expression w).KeepsDepth :=
  (advanceTo w).bind fun _ => h _

include h in
theorem arguments : (Parse.arguments expression).KeepsDepth :=
  listed (argument h .firstArgument) (argument h .nextArgument)

include h in
theorem call (callee : Node) : (Parse.call expression callee).KeepsDepth :=
  (arguments h).bind fun _ => pure _

include h in
theorem binary (left : Node) : (Parse.binary expression left).KeepsDepth := by
  refine current.bind fun operator => ?_
  exact (advanceTo _).bind fun _ => (h _).bind fun _ => pure _

include h in
theorem climb (least : Int) (left : Node) : (Parse.climb expression least left).KeepsDepth := by
  refine foldAhead left fun k step hstep left => ?_
  split at hstep
  · obtain ⟨x, -, rfl⟩ := Option.map_eq_some_iff.1 hstep
    cases x with
    | binary => exact binary h left
    | call => exact call h left
  · exact absurd hstep (by simp)

end

/-- Expressions keep the count: by induction on how deeply they may be nested. -/
theorem expression (limit : Nat) (least : Int) : (Parse.expression limit least).KeepsDepth := by
  induction limit generalizing least with
  | zero => exact current.bind fun t => fail _ t
  | succ limit ih => exact (operand ih).bind fun left => climb ih least left

end KeepsDepth

end Parse

/-! ## Requests -/

/-- The parser that a request runs, with expressions at most `n` deep inside one another.  To skip and
to read a whole program are no such requests: they give no error. -/
def Request.parser (n : Nat) : Request → Option (Σ α : Type, Parse α)
  | .look => some ⟨_, Parse.lookahead⟩
  | .advance => some ⟨_, Parse.advance⟩
  | .advanceTo what => some ⟨_, Parse.advanceTo what⟩
  | .expect kind => some ⟨_, Parse.expect kind⟩
  | .recover => none
  | .expression least => some ⟨_, Parse.expression n least⟩
  | .operand => some ⟨_, Parse.operand (Parse.expression n)⟩
  | .statement => some ⟨_, Parse.statement (Parse.expression n)⟩
  | .binding => some ⟨_, Parse.binding (Parse.expression n)⟩
  | .returning => some ⟨_, Parse.returning (Parse.expression n)⟩
  | .expressionStatement => some ⟨_, Parse.expressionStatement (Parse.expression n)⟩
  | .block => some ⟨_, Parse.block (Parse.expression n)⟩
  | .integerLiteral => some ⟨_, Parse.integerLiteral⟩
  | .unary => some ⟨_, Parse.unary (Parse.expression n)⟩
  | .group => some ⟨_, Parse.group (Parse.expression n)⟩
  | .conditional => some ⟨_, Parse.conditional (Parse.expression n)⟩
  | .function => some ⟨_, Parse.function (Parse.expression n)⟩
  | .binary left => some ⟨_, Parse.binary (Parse.expression n) left⟩
  | .call callee => some ⟨_, Parse.call (Parse.expression n) callee⟩
  | .parameters => some ⟨_, Parse.parameters⟩
  | .arguments => some ⟨_, Parse.arguments (Parse.expression n)⟩
  | .program => none

namespace Request

theorem parser_eq_none_iff {n : Nat} {request : Request} :
    request.parser n = none ↔ request = .recover ∨ request = .program := by
  cases request <;> simp [parser]

/-- A request that gives a value leaves as many blocks open as before. -/
theorem keepsDepth {n : Nat} {request : Request} : ∀ p ∈ request.parser n, p.2.KeepsDepth := by
  have keeps {α : Type} {p : Parse α} (hp : p.KeepsDepth) :
      ∀ q ∈ some (⟨α, p⟩ : Σ α : Type, Parse α), q.2.KeepsDepth := by
    intro q hq
    obtain rfl := Option.mem_some.1 hq
    exact hp
  have inner := KeepsDepth.expression n
  cases request with
  | recover | program => simp [parser]
  | look => exact keeps KeepsDepth.lookahead
  | advance => exact keeps KeepsDepth.advance
  | advanceTo what => exact keeps (KeepsDepth.advanceTo what)
  | expect kind => exact keeps (KeepsDepth.expect kind)
  | expression least => exact keeps (inner least)
  | operand => exact keeps (KeepsDepth.operand inner)
  | statement => exact keeps (KeepsDepth.statement inner)
  | binding => exact keeps (KeepsDepth.binding inner)
  | returning => exact keeps (KeepsDepth.returning inner)
  | expressionStatement => exact keeps (KeepsDepth.expressionStatement inner)
  | block => exact keeps (KeepsDepth.block inner)
  | integerLiteral => exact keeps KeepsDepth.integerLiteral
  | unary => exact keeps (KeepsDepth.unary inner)
  | group => exact keeps (KeepsDepth.group inner)
  | conditional => exact keeps (KeepsDepth.conditional inner)
  | function => exact keeps (KeepsDepth.function inner)
  | binary left => exact keeps (KeepsDepth.binary inner left)
  | call callee => exact keeps (KeepsDepth.call inner callee)
  | parameters => exact keeps KeepsDepth.parameters
  | arguments => exact keeps (KeepsDepth.arguments inner)

end Request

/-! ## Statements that fail -/

namespace Breaks

variable {n : Nat} {x : List Token} {h : Halt} {c f : Cursor}

/-- Where reading breaks off, the blocks that count as open are those of the tokens that are taken. -/
theorem depth_counts (hb : Breaks n .statement x h) :
    (h.depth : Int) = x.countP (·.kind = .lbrace) - x.countP (·.kind = .rbrace) := by
  have htaken : Takes h.Ended h.depth x := hb.taken
  rw [← height_eq_count, htaken.fits.2]

/-- The error carries the token right after those that are taken, or they are all there is and a block
of theirs is not closed. -/
theorem error_token_left (hb : Breaks n .statement x h) (hr : h.Reached c x f)
    (hc : c.current.kind ≠ .eof) :
    if h.error.cause = .unclosedBlock then h.error.left f = []
    else h.error.token = some ((h.error.left f).head?.getD c.final) := by
  split
  · next hblock =>
      rw [ParseError.left, hblock]
      exact (hb.unclosed_block hr hc hblock).1
  · next hblock =>
      rw [(hb.tokens_eq hr).2]
      exact hb.error_token.resolve_left hblock

end Breaks

/-- The count of open blocks is exact.  A request that gives a value leaves it as it was, from any
state.  If a statement fails, the count goes up by the braces that its tokens open, less those that
they close, up to the token that the error carries; for a block that is not closed these are all its
tokens.  So the count never falls below what it was, and every statement of a program starts outside
all blocks. -/
theorem depth_counts_blocks (n : Nat) :
    (∀ request : Request, request ≠ .recover → request ≠ .program →
      ∃ p, request.parser n = some p ∧
        ∀ c d a, p.2.run c = (.ok a, d) → d.depth = c.depth) ∧
    (∀ c d e, c.current.kind ≠ .eof →
      (statement (Parse.expression n)).run c = (.error e, d) → e.cause ≠ .nestedTooDeeply →
      ∃ us, c.current :: c.upcoming = us ++ e.left d ∧
        (if e.cause = .unclosedBlock then e.left d = []
          else e.token = some ((e.left d).head?.getD c.final)) ∧
        (d.depth : Int) =
          c.depth + us.countP (·.kind = .lbrace) - us.countP (·.kind = .rbrace) ∧
        c.depth ≤ d.depth) ∧
    ∀ source, ∀ a ∈ (Cursor.start source).attempts, a.start.depth = 0 := by
  refine ⟨fun request hrecover hprogram => ?_, fun c d e hc hrun _ => ?_, fun source a ha => ?_⟩
  · cases hp : request.parser n with
    | none =>
        rcases Request.parser_eq_none_iff.1 hp with heq | heq
        · exact absurd heq hrecover
        · exact absurd heq hprogram
    | some p => exact ⟨p, rfl, Request.keepsDepth p hp⟩
  · obtain ⟨x, h, f, hb, hr, rfl, rfl⟩ := Breaks.of_run_statement hc hrun
    have hdepth : (f.deepen h.depth).depth = c.depth + h.depth := by
      rw [Cursor.depth_deepen, hr.depth_eq]
    have hcounts := hb.depth_counts
    have htoken := hb.error_token_left hr hc
    refine ⟨x, (hb.tokens_eq hr).1, htoken, ?_, ?_⟩
    · rw [hdepth]
      omega
    · rw [hdepth]
      exact Nat.le_add_right _ _
  · exact (Cursor.depth_start rfl ha).1

end FnLang
