/- # FnLang.Proofs.Recovery — where parsing goes on after an error.

Skipping starts on the token under the cursor, with the count of blocks that are open there.  If that
token has not been counted, the count is right, and skipping ends outside every block
(`Skip.exists_rest`).  But an error that is found on the token after a closing brace leaves the cursor
on the brace, which has been counted: then it is counted twice, and skipping takes the outermost open
block for none (`Skip.exists_rest_short`).  It ends outside every block only if the rest of that block
is the rest of one statement (`Unbroken`).

`starts_outside_blocks_iff` puts this together for whole programs: statements start outside every
block exactly if no error is followed by a skip that goes wrong in this way.
-/
import FnLang.Proofs.Braces
import FnLang.Proofs.Program

namespace FnLang

open Parse

/-! ## Skipping, on tokens -/

/-- The kind of the first token, or of the end of input. -/
def nextKind (ts : List Token) : Kind :=
  (ts.head?.map Token.kind).getD .eof

/-- What skipping leaves of some tokens, the first of which is the current one. -/
def Skip.rest : Nat → List Token → List Token
  | _, [] => []
  | k, t :: ts =>
      match Skip.at t.kind (nextKind ts) k with
      | .stop => ts
      | .takeSemicolon => ts.tail
      | .goOn k => rest k ts

namespace Skip

variable {k : Nat} {t : Token} {ts : List Token} {next : Kind}

theorem at_rbrace_zero (next : Kind) : Skip.at .rbrace next 0 = .stop := rfl

theorem at_rbrace_one (next : Kind) : Skip.at .rbrace next 1 =
    if next = .semicolon then .takeSemicolon
    else if next.continuesStatement then .goOn 0
    else .stop := rfl

/-- A closing brace is counted inside another block, and before what goes on with the statement. -/
theorem at_rbrace_of_goOn (h : 0 < k ∨ next.continuesStatement = true) :
    Skip.at .rbrace next (k + 1) = .goOn k := by
  cases k with
  | succ j => rfl
  | zero =>
      have hgo := h.resolve_left (Nat.lt_irrefl 0)
      have hne : next ≠ .semicolon := by
        rintro rfl
        exact absurd hgo (by decide)
      rw [at_rbrace_one, if_neg hne, if_pos hgo]

theorem at_semicolon_zero (next : Kind) : Skip.at .semicolon next 0 = .stop := rfl

theorem at_of_ne {current : Kind} (hl : current ≠ .lbrace) (hr : current ≠ .rbrace)
    (hs : k = 0 → current ≠ .semicolon) : Skip.at current next k = .goOn k := by
  unfold Skip.at
  cases k <;> cases current <;> first | rfl | simp_all

/-- Skipping goes on with the count that is right after the token. -/
theorem count_of_goOn {current : Kind} {j : Nat} (h : Skip.at current next k = .goOn j) :
    (j : Int) = k + current.rise ∧ (current = .semicolon → 0 < k) := by
  by_cases hl : current = .lbrace
  · subst hl
    obtain rfl := Skip.goOn.inj h
    exact ⟨rfl, by simp⟩
  by_cases hr : current = .rbrace
  · subst hr
    match k with
    | 0 => simp [at_rbrace_zero] at h
    | 1 =>
        rw [at_rbrace_one] at h
        split at h
        · simp at h
        · split at h
          · obtain rfl := Skip.goOn.inj h
            exact ⟨rfl, by simp⟩
          · simp at h
    | i + 2 =>
        obtain rfl := Skip.goOn.inj h
        refine ⟨?_, by simp⟩
        simp only [Kind.rise]
        omega
  by_cases hs : k = 0 ∧ current = .semicolon
  · obtain ⟨rfl, rfl⟩ := hs
    simp [at_semicolon_zero] at h
  · rw [at_of_ne hl hr fun hk hks => hs ⟨hk, hks⟩] at h
    obtain rfl := Skip.goOn.inj h
    refine ⟨by rw [Kind.rise_of_ne hl hr, Int.add_zero], fun hks => ?_⟩
    exact Nat.pos_of_ne_zero fun hk => hs ⟨hk, hks⟩

/-- Skipping takes the current token at least. -/
theorem rest_cons_suffix (k : Nat) (t : Token) (ts : List Token) :
    Skip.rest k (t :: ts) <:+ ts := by
  induction ts generalizing k t with
  | nil => rw [Skip.rest]; split <;> exact List.suffix_refl _
  | cons u us ih =>
      rw [Skip.rest]
      split
      · exact List.suffix_refl _
      · exact List.suffix_cons _ _
      · exact (ih _ _).trans (List.suffix_cons _ _)

theorem rest_suffix (k : Nat) (ts : List Token) : Skip.rest k ts <:+ ts := by
  cases ts with
  | nil => exact List.suffix_refl _
  | cons t ts => exact (rest_cons_suffix k t ts).trans (List.suffix_cons _ _)

theorem rest_of_stop (h : Skip.at t.kind (nextKind ts) k = .stop) : rest k (t :: ts) = ts := by
  rw [rest, h]

theorem rest_of_takeSemicolon (h : Skip.at t.kind (nextKind ts) k = .takeSemicolon) :
    rest k (t :: ts) = ts.tail := by
  rw [rest, h]

theorem rest_of_goOn {j : Nat} (h : Skip.at t.kind (nextKind ts) k = .goOn j) :
    rest k (t :: ts) = rest j ts := by
  rw [rest, h]

/-- The brace that closes the last block takes a semicolon after it. -/
theorem rest_of_rbrace_semicolon (hr : t.kind = .rbrace) (hs : nextKind ts = .semicolon) :
    rest 1 (t :: ts) = ts.tail :=
  rest_of_takeSemicolon (by rw [hr, at_rbrace_one, if_pos hs])

/-- Skipping stops on it before any other token that does not go on with the statement. -/
theorem rest_of_rbrace (hr : t.kind = .rbrace) (hs : nextKind ts ≠ .semicolon)
    (hc : ¬ (nextKind ts).continuesStatement = true) : rest 1 (t :: ts) = ts :=
  rest_of_stop (by rw [hr, at_rbrace_one, if_neg hs, if_neg hc])

end Skip

namespace Cursor

theorem kind_lookahead (c : Cursor) : c.lookahead.kind = nextKind c.upcoming := by
  unfold upcoming
  split
  · next h => rw [h]; rfl
  · rfl

/-- Skipping leaves the tokens that it leaves on lists. -/
theorem upcoming_skip (k : Nat) (c : Cursor) :
    (c.skip k).upcoming = Skip.rest k (c.current :: c.upcoming) := by
  fun_induction skip k c with
  | case1 k c h =>
      rw [kind_lookahead] at h
      rw [Skip.rest_of_stop h]
  | case2 k c h =>
      rw [kind_lookahead] at h
      rw [Skip.rest_of_takeSemicolon h]
      cases hc : c.advance? with
      | none =>
          have hnil := upcoming_eq_nil_iff.2 (advance?_eq_none_iff.1 hc)
          rw [Option.getD_none, hnil]
          rfl
      | some d =>
          rw [upcoming_of_advance? hc]
          rfl
  | case3 k c j h hc =>
      rw [kind_lookahead] at h
      rw [Skip.rest_of_goOn h, upcoming_eq_nil_iff.2 (advance?_eq_none_iff.1 hc)]
      rfl
  | case4 k c j h d hc ih =>
      rw [kind_lookahead] at h
      rw [Skip.rest_of_goOn h, upcoming_of_advance? hc, ih]

theorem depth_skip (k : Nat) (c : Cursor) : (c.skip k).depth = c.depth := by
  fun_induction skip k c with
  | case1 | case3 => rfl
  | case2 k c =>
      cases hc : c.advance? with
      | none => rfl
      | some d => exact depth_of_advance? hc
  | case4 k c j h d hc ih => rw [ih, depth_of_advance? hc]

theorem upcoming_recover (c : Cursor) :
    c.recover.upcoming = Skip.rest c.depth (c.current :: c.upcoming) :=
  upcoming_skip _ _

theorem depth_recover (c : Cursor) : c.recover.depth = 0 :=
  depth_skip _ _

end Cursor

/-! ## Counting right, and counting one block too few -/

/-- With `k` blocks open before them, the tokens close the outermost one before a statement in it
ends: no semicolon stands directly in it, and what follows a block directly in it goes on with a
statement. -/
def Unbroken : Nat → List Token → Prop
  | _, [] => True
  | k, t :: ts =>
      if t.kind = .lbrace then Unbroken (k + 1) ts
      else if t.kind = .rbrace then
        k ≤ 1 ∨ (k = 2 → (nextKind ts).continuesStatement) ∧ Unbroken (k - 1) ts
      else (k = 1 → t.kind ≠ .semicolon) ∧ Unbroken k ts

namespace Skip

variable {k : Nat} {ts : List Token}

/-- Where the last block ends, skipping ends outside every block. -/
theorem exists_rest_of_rbrace {t : Token} (hr : t.kind = .rbrace)
    (hc : ¬ (nextKind ts).continuesStatement = true) :
    ∃ us, t :: ts = us ++ Skip.rest 1 (t :: ts) ∧ ((1 : Nat) : Int) + height us = 0 := by
  by_cases hs : nextKind ts = .semicolon
  · cases ts with
    | nil => simp [nextKind] at hs
    | cons s ts =>
        have hsemi : s.kind = .semicolon := hs
        refine ⟨[t, s], ?_, by simp [hr, hsemi, Kind.rise]⟩
        rw [rest_of_rbrace_semicolon hr hs]
        rfl
  · refine ⟨[t], ?_, by simp [hr, Kind.rise]⟩
    rw [rest_of_rbrace hr hs hc]
    rfl

/-- What skipping does with one token: it goes on with the count that is right after it, it stops on
a brace that it takes for one too many, or it ends where its count is none. -/
theorem rest_cons_cases (k : Nat) (t : Token) (ts : List Token) :
    (∃ j : Nat, (j : Int) = k + t.kind.rise ∧ Skip.rest k (t :: ts) = Skip.rest j ts ∧
      (Unbroken (k + 1) (t :: ts) ↔ Unbroken (j + 1) ts)) ∨
    (k = 0 ∧ t.kind = .rbrace ∧ Skip.rest k (t :: ts) = ts) ∨
    ∃ us, t :: ts = us ++ Skip.rest k (t :: ts) ∧ k + height us = 0 ∧
      ¬ Unbroken (k + 1) (t :: ts) := by
  by_cases hl : t.kind = .lbrace
  · have hat : Skip.at t.kind (nextKind ts) k = .goOn (k + 1) := by rw [hl]; rfl
    exact .inl ⟨k + 1, by rw [hl]; rfl, rest_of_goOn hat, by rw [Unbroken, if_pos hl]⟩
  by_cases hr : t.kind = .rbrace
  · cases k with
    | zero => exact .inr (.inl ⟨rfl, hr, rest_of_stop (by rw [hr]; rfl)⟩)
    | succ j =>
        by_cases hgo : 0 < j ∨ (nextKind ts).continuesStatement = true
        · have hat : Skip.at t.kind (nextKind ts) (j + 1) = .goOn j := by
            rw [hr, at_rbrace_of_goOn hgo]
          refine .inl ⟨j, by rw [hr]; simp only [Kind.rise]; omega, rest_of_goOn hat, ?_⟩
          rw [Unbroken, if_neg hl, if_pos hr]
          refine ⟨fun h => (h.resolve_left (by omega)).2, fun h => .inr ⟨fun hj => ?_, h⟩⟩
          exact hgo.resolve_left (by omega)
        · obtain ⟨hj, hc⟩ := not_or.1 hgo
          obtain rfl : j = 0 := by omega
          refine .inr (.inr ?_)
          obtain ⟨us, heq, hheight⟩ := exists_rest_of_rbrace hr hc
          exact ⟨us, heq, hheight, by simp [Unbroken, hr, hc]⟩
  by_cases hs : k = 0 ∧ t.kind = .semicolon
  · obtain ⟨rfl, hs⟩ := hs
    have hat : Skip.at t.kind (nextKind ts) 0 = .stop := by rw [hs]; rfl
    refine .inr (.inr ⟨[t], ?_, by simp [hs, Kind.rise], by simp [Unbroken, hs]⟩)
    rw [rest_of_stop hat]
    rfl
  · have hat : Skip.at t.kind (nextKind ts) k = .goOn k :=
      at_of_ne hl hr fun hk hks => hs ⟨hk, hks⟩
    refine .inl ⟨k, by rw [Kind.rise_of_ne hl hr]; simp, rest_of_goOn hat, ?_⟩
    rw [Unbroken, if_neg hl, if_neg hr]
    exact and_iff_right fun hk => fun hks => hs ⟨by omega, hks⟩

/-- Skipping that counts right ends outside every block. -/
theorem exists_rest (h : Rising k ts) (hz : k + height ts = 0) :
    ∃ us, ts = us ++ Skip.rest k ts ∧ k + height us = 0 := by
  induction ts generalizing k with
  | nil => exact ⟨[], rfl, hz⟩
  | cons t ts ih =>
      rcases rest_cons_cases k t ts with ⟨j, hj, hrest, -⟩ | ⟨rfl, hr, -⟩ | ⟨us, hus, hzero, -⟩
      · obtain ⟨us, hts, hus⟩ := ih (by rw [hj]; exact h.2) (by rw [hj, Int.add_assoc]; exact hz)
        refine ⟨t :: us, ?_, by rw [height_cons, ← Int.add_assoc, ← hj]; exact hus⟩
        rw [hrest, List.cons_append, ← hts]
      · -- with a right count no brace is one too many
        have hnonneg := h.2.nonneg
        rw [hr] at hnonneg
        exact absurd hnonneg (by decide)
      · exact ⟨us, hus, hzero⟩

/-- Skipping that counts one block too few ends outside every block exactly if the rest of the
outermost open block is the rest of one statement. -/
theorem exists_rest_short (h : Rising (k + 1) ts) (hz : k + 1 + height ts = 0) :
    ∃ us, ts = us ++ Skip.rest k ts ∧ (k + 1 + height us = 0 ↔ Unbroken (k + 1) ts) := by
  induction ts generalizing k with
  | nil =>
      rw [height_nil] at hz
      omega
  | cons t ts ih =>
      rcases rest_cons_cases k t ts with
        ⟨j, hj, hrest, hiff⟩ | ⟨rfl, hr, hrest⟩ | ⟨us, hus, hzero, hbroken⟩
      · have hadd : (j : Int) + 1 = k + 1 + t.kind.rise := by omega
        obtain ⟨us, hts, hus⟩ := ih (by rw [hadd]; exact h.2) (by rw [hadd, Int.add_assoc]; exact hz)
        refine ⟨t :: us, by rw [hrest, List.cons_append, ← hts], ?_⟩
        rw [hiff, ← hus, height_cons, hadd, Int.add_assoc (k + 1 : Int)]
      · refine ⟨[t], by rw [hrest]; rfl, ?_⟩
        simp [Unbroken, hr, Kind.rise]
      · refine ⟨us, hus, ?_⟩
        constructor
        · intro hone
          omega
        · intro hunbroken
          exact absurd hunbroken hbroken

end Skip

/-! ## Errors that are found one token ahead -/

/-- Whether an error is found on the token after the cursor, and not on the one under it. -/
def Cause.isAhead : Cause → Bool
  | .unexpected .. | .missing _ | .unclosedBlock | .unclosedGroup .. => true
  | .noExpression .. | .malformedInteger _ | .integerOutOfRange _ | .nestedTooDeeply => false

theorem Breaks.isAhead_eq {n : Nat} {g : Goal} {x : List Token} {h : Halt} (hb : Breaks n g x h) :
    h.error.cause.isAhead = !h.onto := by
  induction hb with
  | token | missing | nested | noOperand | malformed | outOfRange | unclosed | unfinished => rfl
  | block _ _ ih => exact ih
  | _ => assumption

/-- The attempt fails with `e`, on the cursor `d`. -/
def Attempt.FailsAt (a : Attempt) (e : ParseError) (d : Cursor) (limit : Nat := nestingLimit) :
    Prop :=
  (statement (Parse.expression limit)).run a.start = (.error e, d)

/-- The error is found right after a closing brace.  The brace has been read, and skipping counts it
once more. -/
def ParseError.Recounts (e : ParseError) (d : Cursor) : Prop :=
  e.cause.isAhead = true ∧ d.current.kind = .rbrace

namespace Cursor

variable {c d : Cursor} {limit : Nat}

/-! ## One attempt -/

/-- An attempt that breaks off fails, and skips what skipping takes. -/
theorem attempt_of_breaks {x : List Token} {h : Halt} {f : Cursor}
    (hb : Breaks limit .statement x h) (hr : h.Reached c x f) (hdepth : c.depth = 0) :
    (c.attempt limit).outcome = .error h.error ∧
      (c.attempt limit).FailsAt h.error (f.deepen h.depth) limit ∧
      (c.attempt limit).stop.depth = 0 ∧
      (c.attempt limit).stop.upcoming = Skip.rest h.depth (f.current :: f.upcoming) := by
  have hfails := hb.broken hr
  have hfdepth : f.depth = 0 := by rw [hr.depth_eq, hdepth]
  rw [attempt_of_error hfails]
  refine ⟨rfl, hfails, depth_recover _, ?_⟩
  rw [upcoming_recover, depth_deepen, hfdepth, Nat.zero_add]
  rfl

/-- A failed attempt has its error for outcome. -/
theorem outcome_of_failsAt {a : Attempt} {err : ParseError} (ha : a ∈ c.attempts limit)
    (h : a.FailsAt err d limit) : a.outcome = .error err := by
  rw [eq_attempt_of_mem ha, attempt_of_error h]

/-- Every error that is recorded is that of an attempt that has failed. -/
theorem exists_failsAt {err : ParseError} (h : err ∈ (c.parse limit).errors) :
    ∃ a ∈ c.attempts limit, ∃ d, a.FailsAt err d limit := by
  obtain ⟨o, ho, heq⟩ := List.mem_filterMap.1 h
  obtain ⟨a, ha, rfl⟩ := List.mem_map.1 ho
  refine ⟨a, ha, ?_⟩
  rw [eq_attempt_of_mem ha] at heq
  unfold Attempt.FailsAt
  cases hrun : (statement (Parse.expression limit)).run a.start with
  | mk r d =>
      cases r with
      | ok s =>
          rw [attempt_of_ok hrun] at heq
          simp at heq
      | error err' =>
          rw [attempt_of_error hrun] at heq
          obtain rfl := Option.some.inj heq
          exact ⟨d, rfl⟩

/-- An attempt reads a statement, or breaks off and skips what skipping takes. -/
theorem attempt_cases (hc : c.current.kind ≠ .eof) (hdepth : c.depth = 0) :
    (c.attempt limit).stop.depth = 0 ∧
    ((∃ x s us, Derives limit (.statement x s) us ∧ c.Spans us (c.attempt limit).stop ∧
        x.Closes (c.attempt limit).stop.lookahead.kind ∧ (c.attempt limit).outcome = .ok s) ∨
      ∃ x h f, Breaks limit .statement x h ∧ h.Reached c x f ∧
        (c.attempt limit).FailsAt h.error (f.deepen h.depth) limit ∧
        (c.attempt limit).outcome = .error h.error ∧
        (c.attempt limit).stop.upcoming = Skip.rest h.depth (f.current :: f.upcoming)) := by
  rcases statement_cases limit hc with ⟨x, s, us, d, hs, hspan, hx⟩ | ⟨x, h, f, hb, hr⟩
  · rw [attempt_of_ok (hs.read hspan hx)]
    exact ⟨by rw [hspan.depth_eq, hdepth], .inl ⟨x, s, us, hs, hspan, hx, rfl⟩⟩
  · obtain ⟨houtcome, hfails, hstop, hrest⟩ := attempt_of_breaks hb hr hdepth
    exact ⟨hstop, .inr ⟨x, h, f, hb, hr, hfails, houtcome, hrest⟩⟩

/-- Induction over a run, one attempt after the other.  Each starts outside every block, on a token
that is no end of input. -/
@[elab_as_elim]
theorem run_induction {motive : ∀ c : Cursor, c.depth = 0 → Prop}
    (stop : ∀ (c : Cursor) (hdepth : c.depth = 0), c.advance? = none → motive c hdepth)
    (next : ∀ (c : Cursor) (hdepth : c.depth = 0) (d : Cursor), c.advance? = some d →
      ∀ (hd : d.depth = 0) (heof : d.current.kind ≠ .eof),
        motive d.attempt.stop (attempt_cases heof hd).1 → motive c hdepth)
    (c : Cursor) (hdepth : c.depth = 0) : motive c hdepth := by
  induction hk : c.remaining using Nat.strongRecOn generalizing c with
  | _ k ih =>
    cases hc : c.advance? with
    | none => exact stop c hdepth hc
    | some d =>
        have hless : d.attempt.stop.remaining < k := by
          rw [← hk]
          exact Nat.lt_of_le_of_lt (remaining_attempt_le d _) (remaining_lt_of_advance? hc)
        exact next c hdepth d hc (by rw [depth_of_advance? hc, hdepth])
          (kind_current_of_advance? hc) (ih _ hless _ _ rfl)

/-- Where reading breaks off, the tokens before the one under the cursor are as high as the count
says, unless that one is a closing brace that has been counted. -/
theorem exists_before {n : Nat} {x : List Token} {h : Halt} {f : Cursor}
    (hb : Breaks n .statement x h) (hr : h.Reached c x f)
    (hbalanced : Balanced (c.current :: c.upcoming)) :
    ∃ us, c.current :: c.upcoming = us ++ f.current :: f.upcoming ∧
      (h.error.Recounts f → height us = h.depth + 1) ∧
      (¬ h.error.Recounts f → height us = h.depth) := by
  have htaken : Takes h.Ended h.depth x := hb.taken
  have hheight := htaken.fits.2
  have hahead := hb.isAhead_eq
  have hne := hb.ne_nil_or_onto trivial
  cases ho : h.onto with
  | true =>
      rw [Halt.Reached, if_pos ho] at hr
      rw [ho] at hahead
      refine ⟨x, ?_, fun hrecounts => ?_, fun _ => hheight⟩
      · rw [hr.tokens_eq, hr.last_eq, List.append_assoc]
        rfl
      · exact absurd (hahead.symm.trans hrecounts.1) (by decide)
  | false =>
      rw [Halt.Reached, if_neg (by simp [ho])] at hr
      obtain ⟨hspan, htoken⟩ := hr
      rw [ho] at hahead hne
      obtain ⟨y, u, hx⟩ := (List.eq_nil_or_concat x).resolve_left (hne.resolve_right (by decide))
      rw [List.concat_eq_append] at hx
      subst hx
      have hcurrent := hspan.last_eq
      refine ⟨y, ?_, ?_⟩
      · rw [hspan.tokens_eq, hcurrent, List.append_assoc]
        rfl
      have hlbrace : u.kind ≠ .lbrace := by
        -- at the end of input the tokens are all taken, and they would end with an opening brace
        intro hk
        have hopen : EndsOpen (y ++ [u]) := ⟨u, by simp, hk⟩
        have heof := (htaken.of_endsOpen hopen).resolve_left (by simp [ho])
        rw [← htoken] at heof
        rw [hspan.tokens_eq, upcoming_eq_nil_iff.2 heof, List.append_nil] at hbalanced
        exact hbalanced.not_endsOpen hopen
      rw [htaken.height_of_concat hlbrace]
      constructor
      · intro hrecounts
        rw [if_pos (by rw [← hcurrent, hrecounts.2])]
      · intro hrecounts
        rw [if_neg fun hk => hrecounts ⟨hahead, by rw [hcurrent, hk]⟩]

/-- An attempt on balanced tokens ends outside every block, unless it fails and its skip counts one
block too few and stops too soon. -/
theorem exists_attempt (hc : c.current.kind ≠ .eof) (hdepth : c.depth = 0)
    (hbalanced : Balanced (c.current :: c.upcoming)) :
    ∃ us, c.current :: c.upcoming = us ++ c.attempt.stop.upcoming ∧
      (height us = 0 ↔ ∀ e d, c.attempt.FailsAt e d → e.Recounts d → 0 < d.depth →
        Unbroken (d.depth + 1) (d.current :: d.upcoming)) := by
  rcases (attempt_cases hc hdepth).2 with ⟨x, s, us, hs, hspan, -, hok⟩ | ⟨x, h, f, hb, hr, hfails, -, hstop⟩
  · refine ⟨us, hspan.tokens_eq, iff_of_true hs.balanced.height_eq fun e d hfails => ?_⟩
    have hrun := run_of_outcome_eq_ok hok
    rw [Attempt.FailsAt, start_attempt, hrun] at hfails
    simp at hfails
  · have hfdepth : f.depth = 0 := by rw [hr.depth_eq, hdepth]
    have hcondition : (∀ e d, c.attempt.FailsAt e d → e.Recounts d → 0 < d.depth →
        Unbroken (d.depth + 1) (d.current :: d.upcoming)) ↔
        (h.error.Recounts f → 0 < h.depth → Unbroken (h.depth + 1) (f.current :: f.upcoming)) := by
      constructor
      · intro hall hrecounts hpos
        have := hall _ _ hfails hrecounts (by rw [depth_deepen]; omega)
        rwa [depth_deepen, hfdepth, Nat.zero_add] at this
      · intro hone e d he
        obtain ⟨herror, rfl⟩ := Prod.mk.inj (hfails.symm.trans he)
        obtain rfl := Except.error.inj herror
        intro hrecounts hpos
        rw [depth_deepen, hfdepth, Nat.zero_add] at hpos ⊢
        exact hone hrecounts hpos
    obtain ⟨us, hus, hcounted, hright⟩ := exists_before hb hr hbalanced
    have hrising := hbalanced.rising
    have hheight := hbalanced.height_eq
    rw [hus, Rising.append_iff, Int.zero_add] at hrising
    rw [hus, height_append] at hheight
    rw [hcondition, hstop]
    by_cases hrecounts : h.error.Recounts f
    · rw [hcounted hrecounts] at hrising hheight
      obtain ⟨vs, hvs, hiff⟩ := Skip.exists_rest_short hrising.2 hheight
      refine ⟨us ++ vs, by rw [hus, List.append_assoc, ← hvs], ?_⟩
      rw [height_append, hcounted hrecounts, hiff]
      constructor
      · intro hunbroken _ _
        exact hunbroken
      · intro hone
        by_cases hpos : 0 < h.depth
        · exact hone hrecounts hpos
        · -- no block is open: the brace is the end of the statement
          simp [Unbroken, hrecounts.2, show h.depth = 0 by omega]
    · rw [hright hrecounts] at hrising hheight
      obtain ⟨vs, hvs, hzero⟩ := Skip.exists_rest hrising.2 hheight
      refine ⟨us ++ vs, by rw [hus, List.append_assoc, ← hvs], ?_⟩
      rw [height_append, hright hrecounts]
      exact iff_of_true hzero fun h => absurd h hrecounts

/-! ## Whole runs -/

/-- Statements start outside every block exactly if no skip that counts one block too few stops too
soon: by induction on the attempts, since the tokens that are left are balanced as long as all goes
well, and the next statement starts inside a block as soon as it does not. -/
theorem starts_height_iff (hdepth : c.depth = 0) (hbalanced : Balanced c.upcoming) :
    (∀ a ∈ c.attempts, height (a.start.current :: a.start.upcoming) = 0) ↔
      ∀ a ∈ c.attempts, ∀ e d, a.FailsAt e d → e.Recounts d → 0 < d.depth →
        Unbroken (d.depth + 1) (d.current :: d.upcoming) := by
  induction c, hdepth using run_induction with
  | stop c _ hc => simp [attempts_of_none hc]
  | next c _ d hc hd heof ih =>
      rw [upcoming_of_advance? hc] at hbalanced
      obtain ⟨us, hus, hiff⟩ := exists_attempt heof hd hbalanced
      have hheight := hbalanced.height_eq
      rw [attempts_of_some hc, List.forall_mem_cons, List.forall_mem_cons, start_attempt, ← hiff]
      by_cases hzero : height us = 0
      · rw [ih (.right (by rwa [← hus]) hzero)]
        exact and_congr_left fun _ => iff_of_true hheight hzero
      · refine iff_of_false (fun hall => hzero ?_) fun hall => hzero hall.1
        rw [hus, height_append] at hheight
        cases hnext : d.attempt.stop.advance? with
        | none =>
            rw [upcoming_eq_nil_iff.2 (advance?_eq_none_iff.1 hnext), height_nil] at hheight
            omega
        | some f =>
            rw [upcoming_of_advance? hnext] at hheight
            have hf := hall.2 f.attempt (by rw [attempts_of_some hnext]; simp)
            rw [start_attempt] at hf
            omega

theorem attempt_suffix (hc : c.current.kind ≠ .eof) (hdepth : c.depth = 0) :
    c.attempt.stop.upcoming <:+ c.current :: c.upcoming := by
  rcases (attempt_cases hc hdepth).2 with ⟨x, s, us, -, hspan, -⟩ | ⟨x, h, f, -, hr, -, -, hstop⟩
  · exact ⟨us, hspan.tokens_eq.symm⟩
  · rw [hstop]
    exact (Skip.rest_suffix _ _).trans hr.suffix

/-- Every statement starts outside the blocks that count as open, on a token that is no end of
input. -/
theorem depth_start {a : Attempt} (hdepth : c.depth = 0) (ha : a ∈ c.attempts) :
    a.start.depth = 0 ∧ a.start.current.kind ≠ .eof := by
  induction c, hdepth using run_induction with
  | stop c _ hc => simp [attempts_of_none hc] at ha
  | next c _ d hc hd heof ih =>
      rw [attempts_of_some hc] at ha
      rcases List.mem_cons.1 ha with rfl | ha
      · rw [start_attempt]
        exact ⟨hd, heof⟩
      · exact ih ha

/-- A statement starts on one of the tokens, and the tokens after it are those that come next. -/
theorem start_suffix {a : Attempt} (hdepth : c.depth = 0) (ha : a ∈ c.attempts) :
    a.start.current :: a.start.upcoming <:+ c.upcoming := by
  induction c, hdepth using run_induction with
  | stop c _ hc => simp [attempts_of_none hc] at ha
  | next c _ d hc hd heof ih =>
      rw [attempts_of_some hc] at ha
      rw [upcoming_of_advance? hc]
      rcases List.mem_cons.1 ha with rfl | ha
      · simp [start_attempt]
      · exact (ih ha).trans (attempt_suffix heof hd)

end Cursor

/-- In a balanced list of tokens, the statements that are attempted all start outside every block
exactly if this holds: whenever an error is found right after a brace that leaves blocks open, the
rest of the outermost of these blocks is the rest of one statement. -/
theorem starts_outside_blocks_iff {ts : List Token} (h : ∀ t ∈ ts, t.kind ≠ .eof)
    (hbalanced : Balanced ts) :
    (∀ a ∈ (Cursor.start (.ofList ts)).attempts, ∃ before,
        ts = before ++ a.start.current :: a.start.upcoming ∧
        before.countP (·.kind = .rbrace) = before.countP (·.kind = .lbrace)) ↔
      ∀ a ∈ (Cursor.start (.ofList ts)).attempts, ∀ e d, a.FailsAt e d → e.Recounts d →
        0 < d.depth → Unbroken (d.depth + 1) (d.current :: d.upcoming) := by
  have hup := upcoming_start_ofList h
  rw [← Cursor.starts_height_iff rfl (by rwa [hup])]
  refine forall_congr' fun a => forall_congr' fun ha => ?_
  obtain ⟨before, hbefore⟩ := Cursor.start_suffix rfl ha
  rw [hup] at hbefore
  have hheight := hbalanced.height_eq
  rw [← hbefore, height_append, height_eq_count] at hheight
  constructor
  · rintro ⟨before', hts, hcount⟩
    obtain rfl := List.append_cancel_right (hbefore.trans hts)
    omega
  · intro hzero
    exact ⟨before, hbefore.symm, by omega⟩

/-- The tokens of `fn () { (fn () {}, 1) }; 2;`. -/
def listInGroup : List Token :=
  [⟨.fnWord, "fn", 0, 0⟩, ⟨.lparen, "(", 0, 0⟩, ⟨.rparen, ")", 0, 0⟩, ⟨.lbrace, "\x7b", 0, 0⟩,
   ⟨.lparen, "(", 0, 0⟩, ⟨.fnWord, "fn", 0, 0⟩, ⟨.lparen, "(", 0, 0⟩, ⟨.rparen, ")", 0, 0⟩,
   ⟨.lbrace, "\x7b", 0, 0⟩, ⟨.rbrace, "\x7d", 0, 0⟩, ⟨.comma, ",", 0, 0⟩, ⟨.int, "1", 0, 0⟩,
   ⟨.rparen, ")", 0, 0⟩, ⟨.rbrace, "\x7d", 0, 0⟩, ⟨.semicolon, ";", 0, 0⟩, ⟨.int, "2", 0, 0⟩,
   ⟨.semicolon, ";", 0, 0⟩]

/-- The error before the comma of `listInGroup` is found right after a brace, and the comma goes on
with the statement: skipping comes to the brace that closes the function. -/
theorem listInGroup_unbroken :
    (∀ t ∈ listInGroup, t.kind ≠ .eof) ∧ Balanced listInGroup ∧
      ∀ a ∈ (Cursor.start (.ofList listInGroup)).attempts, ∀ e d, a.FailsAt e d → e.Recounts d →
        0 < d.depth → Unbroken (d.depth + 1) (d.current :: d.upcoming) := by
  refine ⟨by decide, ⟨by decide, by decide⟩, ?_⟩
  refine (starts_outside_blocks_iff (by decide) ⟨by decide, by decide⟩).1 fun a ha => ?_
  have hstarts : (Cursor.start (.ofList listInGroup)).attempts.map
      (fun a => a.start.current :: a.start.upcoming) =
      [listInGroup, listInGroup.drop 14, listInGroup.drop 15] := by decide +kernel
  have hstart := List.mem_map_of_mem (f := fun a => a.start.current :: a.start.upcoming) ha
  rw [hstarts] at hstart
  simp only [List.mem_cons, List.not_mem_nil, or_false] at hstart
  rcases hstart with hstart | hstart | hstart <;> rw [hstart]
  · exact ⟨[], by decide, by decide⟩
  · exact ⟨listInGroup.take 14, by decide, by decide⟩
  · exact ⟨listInGroup.take 15, by decide, by decide⟩

/-- The tokens of `fn () { (fn () {} 1); 2 }; 3;`. -/
def operandInGroup : List Token :=
  [⟨.fnWord, "fn", 0, 0⟩, ⟨.lparen, "(", 0, 0⟩, ⟨.rparen, ")", 0, 0⟩, ⟨.lbrace, "\x7b", 0, 0⟩,
   ⟨.lparen, "(", 0, 0⟩, ⟨.fnWord, "fn", 0, 0⟩, ⟨.lparen, "(", 0, 0⟩, ⟨.rparen, ")", 0, 0⟩,
   ⟨.lbrace, "\x7b", 0, 0⟩, ⟨.rbrace, "\x7d", 0, 0⟩, ⟨.int, "1", 0, 0⟩, ⟨.rparen, ")", 0, 0⟩,
   ⟨.semicolon, ";", 0, 0⟩, ⟨.int, "2", 0, 0⟩, ⟨.rbrace, "\x7d", 0, 0⟩, ⟨.semicolon, ";", 0, 0⟩,
   ⟨.int, "3", 0, 0⟩, ⟨.semicolon, ";", 0, 0⟩]

/-- After the error in `operandInGroup` the next statement starts inside the function. -/
theorem operandInGroup_starts_inside :
    (∀ t ∈ operandInGroup, t.kind ≠ .eof) ∧ Balanced operandInGroup ∧
      ¬ ∀ a ∈ (Cursor.start (.ofList operandInGroup)).attempts, ∃ before,
        operandInGroup = before ++ a.start.current :: a.start.upcoming ∧
        before.countP (·.kind = .rbrace) = before.countP (·.kind = .lbrace) := by
  refine ⟨by decide, ⟨by decide, by decide⟩, fun hall => ?_⟩
  have hstart : operandInGroup.drop 10 ∈ (Cursor.start (.ofList operandInGroup)).attempts.map
      (fun a => a.start.current :: a.start.upcoming) := by decide +kernel
  obtain ⟨a, ha, hstart⟩ := List.mem_map.1 hstart
  obtain ⟨before, hts, hcount⟩ := hall a ha
  rw [hstart] at hts
  have hheight := congrArg height hts
  rw [height_append, height_eq_count before, hcount, Int.sub_self, Int.zero_add] at hheight
  exact absurd hheight (by decide)

end FnLang
