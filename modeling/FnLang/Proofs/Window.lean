/- # FnLang.Proofs.Window — the cursor slides over the tokens that its source hands out.

A token source hands out tokens for ever, and the parser looks at them through a window of two.
Whatever the parser is asked to do, in any order and after errors too, the window only ever moves on:
no token is passed over unseen or seen again in its place, none is fetched before it is needed, and an
end of input is never passed (`Cursor.At`).

All the parsers move the cursor by single moves, so one invariant of a move is enough:
`Simulation.ofInvariant` is the simulation of a cursor with itself that carries the invariant along.
-/
import FnLang.Proofs.Simulation

namespace FnLang

/-! ## Invariants of a run -/

/-- What single moves and the count of blocks keep. -/
structure Cursor.Invariant where
  Holds : Cursor → Prop
  move {c d : Cursor} : Holds c → c.advance? = some d → Holds d
  withDepth {c : Cursor} (n : Nat) : Holds c → Holds { c with depth := n }

/-- A cursor beside itself, with an invariant of it. -/
def Simulation.ofInvariant (I : Cursor.Invariant) : Simulation where
  Same := Eq
  Taken := Eq
  Related c d := c = d ∧ I.Holds c
  kind_eq := congrArg Token.kind
  same := id
  text_eq := congrArg Token.text
  current h := congrArg Cursor.current h.1
  lookahead h := congrArg Cursor.lookahead h.1
  move h hc := ⟨_, h.1 ▸ hc, rfl, I.move h.2 hc⟩
  depth_eq h := congrArg Cursor.depth h.1
  withDepth n h := ⟨h.1 ▸ rfl, I.withDepth n h.2⟩

/-! ## Requests -/

/-- What a parser can be asked to do, with any arguments. -/
inductive Request where
  /-- Asks about the next token: its kind, its priority, or how a statement or an expression goes on
  with it. -/
  | look
  | advance
  | advanceTo (what : Wanted)
  | expect (kind : Kind)
  /-- Skips the rest of a statement. -/
  | recover
  | expression (least : Int)
  | operand
  | statement
  | binding
  | returning
  | expressionStatement
  | block
  | integerLiteral
  | unary
  | group
  | conditional
  | function
  | binary (left : Node)
  | call (callee : Node)
  | parameters
  | arguments
  /-- Reads statements up to the end of input. -/
  | program

namespace Request

/-- The cursor after a request, whether it has given a value or an error. -/
def run (c : Cursor) (request : Request) : Cursor :=
  let inner := Parse.expression Parse.nestingLimit
  match request with
  | .look => (Parse.lookahead.run c).2
  | .advance => (Parse.advance.run c).2
  | .advanceTo what => ((Parse.advanceTo what).run c).2
  | .expect kind => ((Parse.expect kind).run c).2
  | .recover => c.recover
  | .expression least => ((inner least).run c).2
  | .operand => ((Parse.operand inner).run c).2
  | .statement => ((Parse.statement inner).run c).2
  | .binding => ((Parse.binding inner).run c).2
  | .returning => ((Parse.returning inner).run c).2
  | .expressionStatement => ((Parse.expressionStatement inner).run c).2
  | .block => ((Parse.block inner).run c).2
  | .integerLiteral => (Parse.integerLiteral.run c).2
  | .unary => ((Parse.unary inner).run c).2
  | .group => ((Parse.group inner).run c).2
  | .conditional => ((Parse.conditional inner).run c).2
  | .function => ((Parse.function inner).run c).2
  | .binary left => ((Parse.binary inner left).run c).2
  | .call callee => ((Parse.call inner callee).run c).2
  | .parameters => (Parse.parameters.run c).2
  | .arguments => ((Parse.arguments inner).run c).2
  | .program => c.finish

/-- The cursor after some requests, one after the other. -/
def runAll (c : Cursor) (requests : List Request) : Cursor :=
  requests.foldl run c

/-- A request keeps what single moves keep. -/
theorem holds_run (I : Cursor.Invariant) {c : Cursor} (h : I.Holds c) (request : Request) :
    I.Holds (run c request) := by
  have hself : (Simulation.ofInvariant I).Related c c := ⟨rfl, h⟩
  have keeps {α : Type} {p : Parse α} (hp : (Simulation.ofInvariant I).Keeps p) :
      I.Holds (p.run c).2 := (hp c c hself).1.2
  have inner := Simulation.expression (S := Simulation.ofInvariant I) Parse.nestingLimit
  cases request with
  | look => exact h
  | advance => exact keeps Simulation.advance
  | advanceTo what => exact keeps (Simulation.advanceTo what)
  | expect kind => exact (Simulation.expect (S := Simulation.ofInvariant I) kind c c hself).1.2
  | recover => exact (Simulation.recover hself).2
  | expression least => exact keeps (inner least)
  | operand => exact keeps (Simulation.operand inner)
  | statement => exact keeps (Simulation.statement inner)
  | binding => exact keeps (Simulation.binding inner)
  | returning => exact keeps (Simulation.returning inner)
  | expressionStatement => exact keeps (Simulation.expressionStatement inner)
  | block => exact keeps (Simulation.block inner)
  | integerLiteral => exact keeps Simulation.integerLiteral
  | unary => exact keeps (Simulation.unary inner)
  | group => exact keeps (Simulation.group inner)
  | conditional => exact keeps (Simulation.conditional inner)
  | function => exact keeps (Simulation.function inner)
  | binary left => exact keeps (Simulation.binary inner left)
  | call callee => exact keeps (Simulation.call inner callee)
  | parameters => exact keeps Simulation.parameters
  | arguments => exact keeps (Simulation.arguments inner)
  | program => exact (Simulation.finish hself _).2

end Request

/-! ## The tokens of a source -/

namespace TokenSource

/-- The source after `n` tokens have been pulled. -/
def after : (n : Nat) → TokenSource → TokenSource
  | 0, s => s
  | n + 1, s => after n s.pull.2

/-- The token that comes after `n` others. -/
def nth (s : TokenSource) (n : Nat) : Token :=
  (s.after n).pull.1

theorem after_succ (s : TokenSource) (n : Nat) : s.after (n + 1) = (s.after n).pull.2 := by
  induction n generalizing s with
  | zero => rfl
  | succ n ih => exact ih s.pull.2

/-- A list is handed out token by token, and after it its last end token for ever, or the one that
the source began with. -/
theorem nth_list (tokens : List Token) (ending : EndToken) (n : Nat) :
    (list tokens ending).nth n =
      tokens[n]?.getD ((tokens.filter (·.kind = .eof)).getLast?.getD ending) := by
  induction n generalizing tokens ending with
  | zero =>
      cases tokens with
      | nil => rfl
      | cons t ts => rfl
  | succ n ih =>
      cases tokens with
      | nil => exact ih [] ending
      | cons t ts =>
          show (list ts _).nth n = _
          rw [ih, List.getElem?_cons_succ]
          congr 1
          by_cases ht : t.kind = .eof
          · rw [List.filter_cons_of_pos (by simpa using ht), List.getLast?_cons]
            simp [ht]
          · rw [List.filter_cons_of_neg (by simpa using ht)]
            simp [ht]

end TokenSource

/-! ## The window -/

/-- The cursor stands after `k` tokens of the source, none of them an end of input.  It shows the last
of these and the next one, and just that one has been pulled besides. -/
structure Cursor.At (s : TokenSource) (k : Nat) (c : Cursor) : Prop where
  passed : ∀ i, i < k → (s.nth i).kind ≠ .eof
  lookahead_eq : c.lookahead = s.nth k
  current_eq : c.current = if k = 0 then Token.ending else s.nth (k - 1)
  source_eq : c.source = s.after (k + 1)

namespace Cursor.At

variable {s : TokenSource} {j k : Nat} {c d : Cursor}

theorem start (s : TokenSource) : (Cursor.start s).At s 0 :=
  ⟨fun _ h => absurd h (Nat.not_lt_zero _), rfl, rfl, rfl⟩

/-- A move takes the window one token on. -/
theorem move (h : c.At s k) (hd : c.advance? = some d) : d.At s (k + 1) := by
  -- what is moved to is no end of input, as there is no way on from one
  have hlookahead : (s.nth k).kind ≠ .eof := by
    rw [← h.lookahead_eq]
    intro heof
    rw [advance?_eq_none_iff.2 heof] at hd
    exact absurd hd (by simp)
  unfold advance? at hd
  rw [if_neg (by rwa [h.lookahead_eq])] at hd
  obtain rfl := Option.some.inj hd
  constructor
  · intro i hi
    rcases Nat.lt_succ_iff_lt_or_eq.1 hi with hi | rfl
    · exact h.passed i hi
    · exact hlookahead
  · show c.source.pull.1 = _
    rw [h.source_eq, TokenSource.nth]
  · exact h.lookahead_eq
  · show c.source.pull.2 = _
    rw [h.source_eq, TokenSource.after_succ s (k + 1)]

/-- At an end of input there is no way on: what stands there later stands there now. -/
theorem eq_of_eof (h : c.At s j) (h' : d.At s k) (hjk : j ≤ k) (heof : c.lookahead.kind = .eof) :
    j = k := by
  rcases Nat.lt_or_eq_of_le hjk with hlt | heq
  · rw [h.lookahead_eq] at heof
    exact absurd heof (h'.passed j hlt)
  · exact heq

/-- To stand at some token, or behind it, is an invariant. -/
def invariant (s : TokenSource) (k : Nat) : Cursor.Invariant where
  Holds c := ∃ j, k ≤ j ∧ c.At s j
  move := fun ⟨j, hkj, hc⟩ hd => ⟨j + 1, by omega, hc.move hd⟩
  withDepth := fun _ ⟨j, hkj, hc⟩ => ⟨j, hkj, hc.1, hc.2, hc.3, hc.4⟩

/-- One request. -/
theorem run (h : c.At s k) (request : Request) : ∃ j, k ≤ j ∧ (request.run c).At s j :=
  request.holds_run (invariant s k) ⟨k, Nat.le_refl k, h⟩

/-- A sequence of requests: by induction, the places of the window after one request and the next. -/
theorem exists_places (h : c.At s k) (requests : List Request) :
    ∃ place : Nat → Nat, place 0 = k ∧ (∀ n, place n ≤ place (n + 1)) ∧
      ∀ n, (Request.runAll c (requests.take n)).At s (place n) := by
  induction requests generalizing c k with
  | nil =>
      refine ⟨fun _ => k, rfl, fun _ => Nat.le_refl k, fun n => ?_⟩
      rw [List.take_nil]
      exact h
  | cons request requests ih =>
      obtain ⟨j, hkj, hj⟩ := h.run request
      obtain ⟨place, hstart, hmono, hat⟩ := ih hj
      refine ⟨fun n => n.casesOn k place, rfl, fun n => ?_, fun n => ?_⟩
      · cases n with
        | zero =>
            show k ≤ place 0
            rw [hstart]
            exact hkj
        | succ n => exact hmono n
      · cases n with
        | zero => exact h
        | succ n => exact hat n

end Cursor.At

/-- The cursor over a source after the first `n` of some requests. -/
def TokenSource.asked (s : TokenSource) (requests : List Request) (n : Nat) : Cursor :=
  Request.runAll (Cursor.start s) (requests.take n)

/-- Whatever a parser is asked for, one request after the other, its cursor is a window that slides
over what the source hands out and never goes back.  It stays where it is once the end of input comes
next.  A list is handed out token by token, with its last end token for ever after. -/
theorem TokenSource.window (s : TokenSource) (requests : List Request) :
    (∃ place : Nat → Nat, (∀ m n, m ≤ n → place m ≤ place n) ∧
      ∀ n, (s.asked requests n).At s (place n)) ∧
    (∀ m n, m ≤ n → (s.asked requests m).lookahead.kind = .eof →
      (s.asked requests n).current = (s.asked requests m).current ∧
      (s.asked requests n).lookahead = (s.asked requests m).lookahead) ∧
    ∀ tokens, s = .ofList tokens → ∀ n,
      s.nth n = tokens[n]?.getD ((tokens.filter (·.kind = .eof)).getLast?.getD Token.ending) := by
  obtain ⟨place, -, hstep, hat⟩ := (Cursor.At.start s).exists_places requests
  have hmono : ∀ m n, m ≤ n → place m ≤ place n := by
    intro m n hmn
    induction hmn with
    | refl => exact Nat.le_refl _
    | step _ ih => exact Nat.le_trans ih (hstep _)
  refine ⟨⟨place, hmono, hat⟩, fun m n hmn heof => ?_, ?_⟩
  · have hm : (s.asked requests m).At s (place m) := hat m
    have hn : (s.asked requests n).At s (place n) := hat n
    have hplace := hm.eq_of_eof hn (hmono m n hmn) heof
    rw [hn.current_eq, hn.lookahead_eq, hm.current_eq, hm.lookahead_eq, hplace]
    exact ⟨rfl, rfl⟩
  · rintro tokens rfl n
    exact nth_list tokens _ n

end FnLang
