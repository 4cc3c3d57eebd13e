/- # FnLang.Proofs.Boundary — skipping stops at the first boundary.

Skipping is one loop: it counts braces, has three ways to stop, and goes on after a block whose
statement is not over yet.  Here it is described without the loop.  `Skip.depthAt` is how many blocks
are open before a token, by the braces in front of it; a token is a boundary if by that count a
statement ends there (`Skip.Boundary`); and skipping stops at the first boundary there is, whatever
the braces before it are like (`Skip.rest_of_first`).

A semicolon right after a boundary that closes a block is taken in (`Skip.last`).  It is the first one
outside every block, so skipping never goes beyond such a semicolon.
-/
import Mathlib.Data.Nat.Find
import FnLang.Proofs.View

namespace FnLang

/-! ## Boundaries -/

/-- The kinds of token that go on with a statement after a block of it. -/
def Kind.goingOn : List Kind :=
  [elseWord, comma, rparen, lparen] ++ binaryOperators

theorem Kind.continuesStatement_iff (k : Kind) : k.continuesStatement = true ↔ k ∈ goingOn := by
  cases k with
  | foreign name => simp [continuesStatement, goingOn, binaryOperators, priority]
  | _ => decide

namespace Skip

/-- How many blocks are open after a token, with `k` open before it.  Outside every block a closing
brace closes none. -/
def after (k : Nat) (t : Token) : Nat :=
  match t.kind with
  | .lbrace => k + 1
  | .rbrace => k - 1
  | _ => k

/-- How many blocks are open before the token at a place, with `k` open before the first one. -/
def depthAt (k : Nat) (ts : List Token) (i : Nat) : Nat :=
  (ts.take i).foldl after k

/-- The token at a place ends a statement outside every block. -/
def Ends (k : Nat) (ts : List Token) (i : Nat) : Prop :=
  ∃ t ∈ ts[i]?, (t.kind = .semicolon ∨ t.kind = .rbrace) ∧ depthAt k ts i = 0

/-- The token at a place closes the only block that is open, and what comes next does not go on with
the statement. -/
def Closes (k : Nat) (ts : List Token) (i : Nat) : Prop :=
  ∃ t ∈ ts[i]?, t.kind = .rbrace ∧ depthAt k ts i = 1 ∧ nextKind (ts.drop (i + 1)) ∉ Kind.goingOn

/-- A statement ends at the place. -/
def Boundary (k : Nat) (ts : List Token) (i : Nat) : Prop :=
  Ends k ts i ∨ Closes k ts i

instance (k : Nat) (ts : List Token) (i : Nat) : Decidable (Ends k ts i) :=
  inferInstanceAs (Decidable (∃ t ∈ ts[i]?, (t.kind = .semicolon ∨ t.kind = .rbrace) ∧ _))

instance (k : Nat) (ts : List Token) (i : Nat) : Decidable (Closes k ts i) :=
  inferInstanceAs (Decidable (∃ t ∈ ts[i]?, t.kind = .rbrace ∧ _ ∧ _))

instance (k : Nat) (ts : List Token) (i : Nat) : Decidable (Boundary k ts i) :=
  inferInstanceAs (Decidable (Ends k ts i ∨ Closes k ts i))

/-- Where skipping stops that comes to a boundary: there, or on the semicolon after the block that is
closed there. -/
def last (k : Nat) (ts : List Token) (i : Nat) : Nat :=
  if Closes k ts i ∧ nextKind (ts.drop (i + 1)) = .semicolon then i + 1 else i

variable {i j k : Nat} {t : Token} {ts : List Token}

/-! ### After the first token -/

theorem boundary_succ : Boundary k (t :: ts) (i + 1) ↔ Boundary (after k t) ts i := Iff.rfl

theorem last_succ : last k (t :: ts) (i + 1) = last (after k t) ts i + 1 := by
  show (if Closes (after k t) ts i ∧ nextKind (ts.drop (i + 1)) = .semicolon then i + 1 + 1
    else i + 1) = _
  unfold last
  split <;> rfl

/-! ### At the first token -/

theorem ends_zero : Ends k (t :: ts) 0 ↔ (t.kind = .semicolon ∨ t.kind = .rbrace) ∧ k = 0 := by
  simp [Ends, depthAt]

theorem closes_zero : Closes k (t :: ts) 0 ↔ t.kind = .rbrace ∧ k = 1 ∧ nextKind ts ∉ Kind.goingOn := by
  simp [Closes, depthAt]

/-- Skipping goes on with a token that is no boundary, and counts it. -/
theorem at_of_not_boundary (h : ¬ Boundary k (t :: ts) 0) :
    Skip.at t.kind (nextKind ts) k = .goOn (after k t) := by
  rw [Boundary, ends_zero, closes_zero, not_or] at h
  obtain ⟨hends, hcloses⟩ := h
  by_cases hl : t.kind = .lbrace
  · rw [after, hl]
    rfl
  by_cases hr : t.kind = .rbrace
  · rw [after, hr]
    match k with
    | 0 => exact absurd ⟨.inr hr, rfl⟩ hends
    | 1 =>
        have hgoes : nextKind ts ∈ Kind.goingOn := by
          by_contra hstops
          exact hcloses ⟨hr, rfl, hstops⟩
        exact at_rbrace_of_goOn (.inr ((Kind.continuesStatement_iff _).2 hgoes))
    | j + 2 => rfl
  · have hafter : after k t = k := by
      unfold after
      split <;> first | contradiction | rfl
    rw [hafter]
    exact at_of_ne hl hr fun hk hs => hends ⟨.inl hs, hk⟩

/-- At a boundary skipping stops, or takes in the semicolon after it. -/
theorem rest_of_boundary_zero (h : Boundary k (t :: ts) 0) :
    Skip.rest k (t :: ts) = (t :: ts).drop (last k (t :: ts) 0 + 1) := by
  by_cases hcloses : Closes k (t :: ts) 0
  · obtain ⟨hr, rfl, hstops⟩ := closes_zero.1 hcloses
    by_cases hsemi : nextKind ts = .semicolon
    · have hlast : last 1 (t :: ts) 0 = 1 := if_pos ⟨hcloses, hsemi⟩
      rw [rest_of_rbrace_semicolon hr hsemi, hlast, List.drop_succ_cons, List.drop_one]
    · have hlast : last 1 (t :: ts) 0 = 0 := if_neg fun hboth => hsemi hboth.2
      rw [rest_of_rbrace hr hsemi (mt (Kind.continuesStatement_iff _).1 hstops), hlast]
      rfl
  · obtain ⟨hkind, rfl⟩ := ends_zero.1 (h.resolve_right hcloses)
    have hat : Skip.at t.kind (nextKind ts) 0 = .stop := by
      rcases hkind with hs | hr
      · rw [hs, at_semicolon_zero]
      · rw [hr, at_rbrace_zero]
    have hlast : last 0 (t :: ts) 0 = 0 := if_neg fun hboth => hcloses hboth.1
    rw [rest_of_stop hat, hlast]
    rfl

/-! ## Skipping on tokens -/

/-- Skipping stops at the first boundary: by induction on the tokens, as those before it are counted
and gone over. -/
theorem rest_of_first (h : Boundary k ts i) (hfirst : ∀ j < i, ¬ Boundary k ts j) :
    Skip.rest k ts = ts.drop (last k ts i + 1) := by
  induction ts generalizing k i with
  | nil => simp [Boundary, Ends, Closes] at h
  | cons t ts ih =>
      cases i with
      | zero => exact rest_of_boundary_zero h
      | succ i =>
          have hgoes := at_of_not_boundary (hfirst 0 (Nat.succ_pos i))
          rw [rest_of_goOn hgoes, last_succ, List.drop_succ_cons]
          refine ih (boundary_succ.1 h) fun j hj hboundary => ?_
          exact hfirst (j + 1) (Nat.succ_lt_succ hj) (boundary_succ.2 hboundary)

/-- Without a boundary, skipping takes all the tokens. -/
theorem rest_of_none (h : ∀ i, ¬ Boundary k ts i) : Skip.rest k ts = [] := by
  induction ts generalizing k with
  | nil => rfl
  | cons t ts ih =>
      rw [rest_of_goOn (at_of_not_boundary (h 0))]
      exact ih fun i hboundary => h (i + 1) (boundary_succ.2 hboundary)

/-- A boundary is one of the tokens. -/
theorem Boundary.lt_length (h : Boundary k ts i) : i < ts.length := by
  rcases h with ⟨t, ht, -⟩ | ⟨t, ht, -⟩ <;> exact (List.getElem?_eq_some_iff.1 ht).1

/-- Skipping stops on one of the tokens. -/
theorem Boundary.last_lt_length (h : Boundary k ts i) : last k ts i < ts.length := by
  unfold last
  split
  · next hboth =>
      -- the semicolon that is taken in is no end of input
      by_contra hge
      have hnil : ts.drop (i + 1) = [] := List.drop_eq_nil_of_le (Nat.not_lt.1 hge)
      rw [hnil] at hboth
      exact absurd hboth.2 (by decide)
  · exact h.lt_length

/-- From a boundary, skipping does not get beyond a later semicolon. -/
theorem last_le_of_semicolon (hij : i ≤ j) (ht : t ∈ ts[j]?) (hs : t.kind = .semicolon) :
    last k ts i ≤ j := by
  unfold last
  split
  · next hboth =>
      obtain ⟨u, hu, hr, -⟩ := hboth.1
      rcases Nat.lt_or_eq_of_le hij with hlt | rfl
      · exact hlt
      · -- a closing brace is no semicolon
        obtain rfl := Option.some.inj (hu.symm.trans ht)
        simp [hr] at hs
  · exact hij

end Skip

namespace Cursor

open Skip

/-! ## Skipping with a cursor -/

/-- From `c` to `d` the cursor moves over `i` tokens, so it comes to stand on the token at `i`, counted
from the one it has stood on. -/
structure MovesTo (c : Cursor) (i : Nat) (d : Cursor) : Prop where
  spans : c.Spans ((c.current :: c.upcoming).take (i + 1)) d
  current : (c.current :: c.upcoming)[i]? = some d.current

/-- A span that leaves the tokens after a place ends on the token at that place. -/
theorem Spans.movesTo {c d : Cursor} {us : List Token} {i : Nat} (h : c.Spans us d)
    (hd : d.upcoming = (c.current :: c.upcoming).drop (i + 1))
    (hi : i < (c.current :: c.upcoming).length) : c.MovesTo i d := by
  have htake : us = (c.current :: c.upcoming).take (i + 1) := by
    have htokens := h.tokens_eq
    rw [hd] at htokens
    exact List.append_cancel_right (htokens.symm.trans (List.take_append_drop _ _).symm)
  subst htake
  refine ⟨h, ?_⟩
  rw [List.take_succ_eq_append_getElem hi] at h
  rw [List.getElem?_eq_getElem hi, h.last_eq]

/-- Recovery ends where skipping leaves the tokens after a place. -/
theorem recover_movesTo {c : Cursor} {i : Nat}
    (hrest : Skip.rest c.depth (c.current :: c.upcoming) = (c.current :: c.upcoming).drop (i + 1))
    (hi : i < (c.current :: c.upcoming).length) :
    { c with depth := 0 }.MovesTo i c.recover := by
  obtain ⟨us, hspan⟩ := exists_skip_spans c.depth { c with depth := 0 }
  exact Spans.movesTo hspan (c.upcoming_recover.trans hrest) hi

end Cursor

/-- Recovery ends at the first boundary, counted from the blocks that are open, and takes in the
semicolon after a block that is closed there; without a boundary it ends on the last token there is.
Afterwards no block counts as open.  It never moves beyond a semicolon that stands outside every
block. -/
theorem recover_stops_at_boundary (c : Cursor) :
    let ts := c.current :: c.upcoming
    let outside : Cursor := { c with depth := 0 }
    (∀ i, Skip.Boundary c.depth ts i → (∀ j < i, ¬ Skip.Boundary c.depth ts j) →
      outside.MovesTo (Skip.last c.depth ts i) c.recover) ∧
    ((∀ i, ¬ Skip.Boundary c.depth ts i) →
      outside.MovesTo c.upcoming.length c.recover ∧ c.recover.lookahead.kind = .eof) ∧
    c.recover.depth = 0 ∧
    ∀ j, ∀ t ∈ ts[j]?, t.kind = .semicolon → Skip.depthAt c.depth ts j = 0 →
      ∃ i ≤ j, outside.MovesTo i c.recover := by
  intro ts outside
  have hstops : ∀ i, Skip.Boundary c.depth ts i → (∀ j < i, ¬ Skip.Boundary c.depth ts j) →
      outside.MovesTo (Skip.last c.depth ts i) c.recover := fun i h hfirst =>
    Cursor.recover_movesTo (Skip.rest_of_first h hfirst) h.last_lt_length
  refine ⟨hstops, fun hnone => ?_, c.depth_recover, fun j t ht hs hdepth => ?_⟩
  · have hrest := Skip.rest_of_none hnone
    refine ⟨Cursor.recover_movesTo ?_ (Nat.lt_succ_self _), ?_⟩
    · rw [hrest]
      exact (List.drop_length (l := ts)).symm
    · rw [← Cursor.upcoming_eq_nil_iff, c.upcoming_recover]
      exact hrest
  · -- the semicolon is a boundary, so there is a first one, no later
    have hboundary : ∃ i, Skip.Boundary c.depth ts i := ⟨j, .inl ⟨t, ht, .inl hs, hdepth⟩⟩
    have hfirst := hstops (Nat.find hboundary) (Nat.find_spec hboundary) fun i hi =>
      Nat.find_min hboundary hi
    have hle : Nat.find hboundary ≤ j := Nat.find_min' hboundary (.inl ⟨t, ht, .inl hs, hdepth⟩)
    exact ⟨_, Skip.last_le_of_semicolon hle ht hs, hfirst⟩

/-- With one block open, the boundary of `} else { 2 };` is the second brace, and its semicolon is
taken in. -/
example :
    let ts : List Token := [.rbrace, .elseWord, .lbrace, .int, .rbrace, .semicolon].map (⟨·, "", 0, 0⟩)
    Skip.Boundary 1 ts 4 ∧ (∀ j < 4, ¬ Skip.Boundary 1 ts j) ∧ Skip.last 1 ts 4 = 5 := by
  decide

end FnLang
