/- # FnLang.Proofs.Cover — a run cuts the input into the statements it attempts.

An attempt begins on the token after the one that the attempt before it stopped on, and goes over
one token at least.  So a run that reaches the end of input has gone over every token once
(`Cursor.flatMap_tokens`), and has recorded no more than there were tokens.

The tokens of an attempt that succeeds are a statement by themselves.  The parser has looked at one
token more to know where it ends, but that token can only have told it to stop: the derivation does
not mention it, and is one of the whole program when nothing comes after.
-/
import FnLang.Proofs.View

namespace FnLang

/-! ## The tokens of an attempt -/

/-- The tokens of an attempt, from the one it starts on to the one it stops on. -/
def Attempt.tokens (a : Attempt) : List Token :=
  (a.start.current :: a.start.upcoming).take (a.start.upcoming.length + 1 - a.stop.upcoming.length)

theorem Attempt.tokens_eq {a : Attempt} {us : List Token} (h : a.start.Spans us a.stop) :
    a.tokens = us := by
  have htokens := h.tokens_eq
  have hlength : a.start.upcoming.length + 1 = us.length + a.stop.upcoming.length := by
    rw [← List.length_cons, htokens, List.length_append]
  unfold tokens
  rw [htokens, hlength, Nat.add_sub_cancel, List.take_left]

namespace Cursor

variable {c d : Cursor} {s : Node}

theorem spans_tokens (hc : c.current.kind ≠ .eof) (hdepth : c.depth = 0) :
    c.Spans c.attempt.tokens c.attempt.stop := by
  obtain ⟨us, hspan⟩ := exists_attempt_spans hc hdepth
  rw [Attempt.tokens_eq (a := c.attempt) (by rwa [start_attempt])]
  exact hspan

theorem exists_derives_tokens (hc : c.current.kind ≠ .eof) (hdepth : c.depth = 0)
    (hs : c.attempt.outcome = .ok s) :
    ∃ x, Derives Parse.nestingLimit (.statement x s) c.attempt.tokens := by
  rcases (attempt_cases hc hdepth).2 with ⟨x, s', us, hd, hspan, -, houtcome⟩ | ⟨x, h, f, -, -, -, houtcome, -⟩
  · rw [houtcome] at hs
    obtain rfl := Except.ok.inj hs
    rw [Attempt.tokens_eq (a := c.attempt) (by rwa [start_attempt])]
    exact ⟨x, hd⟩
  · rw [houtcome] at hs
    exact absurd hs (by simp)

/-- In a run, the tokens of an attempt that gives a statement derive it. -/
theorem exists_derives_of_mem {a : Attempt} (hdepth : c.depth = 0) (ha : a ∈ c.attempts)
    (hs : a.outcome = .ok s) : ∃ x, Derives Parse.nestingLimit (.statement x s) a.tokens := by
  obtain ⟨hstart, heof⟩ := depth_start hdepth ha
  rw [eq_attempt_of_mem ha] at hs ⊢
  exact exists_derives_tokens heof hstart hs

/-! ## A run -/

/-- The attempts of a run go over all the tokens, one after the other. -/
theorem flatMap_tokens (hdepth : c.depth = 0) :
    c.attempts.flatMap Attempt.tokens = c.upcoming := by
  induction c, hdepth using run_induction with
  | stop c _ hc =>
      rw [attempts_of_none hc, upcoming_eq_nil_iff.2 (advance?_eq_none_iff.1 hc)]
      rfl
  | next c _ d hc hd heof ih =>
      rw [attempts_of_some hc, List.flatMap_cons, ih, upcoming_of_advance? hc,
        (spans_tokens heof hd).tokens_eq]

/-- There are no more attempts than tokens, as each of them takes one. -/
theorem length_attempts_le (hdepth : c.depth = 0) : c.attempts.length ≤ c.upcoming.length := by
  induction c, hdepth using run_induction with
  | stop c _ hc =>
      rw [attempts_of_none hc]
      exact Nat.zero_le _
  | next c _ d hc hd heof ih =>
      have hspan := spans_tokens heof hd
      have hpos := List.length_pos_iff.2 hspan.ne_nil
      rw [attempts_of_some hc, upcoming_of_advance? hc, hspan.tokens_eq, List.length_cons,
        List.length_append]
      omega

/-- A run ends where nothing is left to read. -/
theorem upcoming_finish (hdepth : c.depth = 0) : c.finish.upcoming = [] := by
  induction c, hdepth using run_induction with
  | stop c _ hc =>
      rw [finish_of_none hc]
      exact upcoming_eq_nil_iff.2 (advance?_eq_none_iff.1 hc)
  | next c _ d hc hd heof ih =>
      rw [finish_of_some hc]
      exact ih

end Cursor

/-! ## Programs -/

theorem ParseResult.length_outcomes (r : ParseResult) :
    r.outcomes.length = r.statements.length + r.errors.length := by
  unfold statements errors
  induction r.outcomes with
  | nil => rfl
  | cons o os ih =>
      cases o with
      | ok s =>
          simp only [List.filterMap_cons, List.length_cons, ih]
          omega
      | error e =>
          simp only [List.filterMap_cons, List.length_cons, ih]
          omega

/-- The tokens of a statement, parsed on their own, are that statement. -/
theorem Derives.parseTokens_eq {x : Ending} {s : Node} {us : List Token}
    (h : Derives Parse.nestingLimit (.statement x s) us) (hus : ∀ t ∈ us, t.kind ≠ .eof) :
    (parseTokens us).statements = [s] ∧ (parseTokens us).errors = [] := by
  have hone : Derives Parse.nestingLimit (.statements [s]) (Cursor.start (.ofList us)).upcoming := by
    rw [upcoming_start_ofList hus]
    exact h.single
  have houtcomes : (parseTokens us).outcomes = [s].map .ok := Cursor.outcomes_eq_iff.2 hone
  exact ⟨ParseResult.statements_of_outcomes_eq houtcomes,
    ParseResult.errors_of_outcomes_eq houtcomes⟩

/-- Parsing a list goes over every token before its first end of input: these are the tokens of the
attempts, one attempt after the other, and each attempt has a token and an outcome.  The tokens of an
attempt that gives a statement give that statement, and no error, by themselves. -/
theorem parseTokens_cover (ts : List Token) :
    let run := Cursor.start (.ofList ts)
    let read := ts.takeWhile (·.kind ≠ .eof)
    run.finish.upcoming = [] ∧
      (parseTokens ts).outcomes = run.attempts.map Attempt.outcome ∧
      run.attempts.flatMap Attempt.tokens = read ∧
      (∀ a ∈ run.attempts, a.start.Spans a.tokens a.stop ∧ a.tokens ≠ [] ∧
        ∀ s, a.outcome = .ok s →
          (parseTokens a.tokens).statements = [s] ∧ (parseTokens a.tokens).errors = []) ∧
      (parseTokens ts).statements.length + (parseTokens ts).errors.length ≤ read.length ∧
      ((parseTokens ts).statements.length + (parseTokens ts).errors.length = 0 → read = []) := by
  intro run read
  have hread : run.upcoming = read := by
    rw [Cursor.upcoming_start, TokenSource.pending_ofList_eq]
  have hcover : run.attempts.flatMap Attempt.tokens = run.upcoming := Cursor.flatMap_tokens rfl
  have hcount : (parseTokens ts).statements.length + (parseTokens ts).errors.length =
      run.attempts.length := by
    rw [← ParseResult.length_outcomes]
    exact List.length_map _
  refine ⟨Cursor.upcoming_finish rfl, rfl, hcover.trans hread, fun a ha => ?_, ?_, fun hzero => ?_⟩
  · obtain ⟨hdepth, heof⟩ := Cursor.depth_start rfl ha
    have hspan := Cursor.spans_tokens heof hdepth
    rw [← Cursor.eq_attempt_of_mem ha] at hspan
    refine ⟨hspan, hspan.ne_nil, fun s hs => ?_⟩
    obtain ⟨x, hd⟩ := Cursor.exists_derives_of_mem rfl ha hs
    have hlisted : ∀ t ∈ a.tokens, t.kind ≠ .eof := by
      intro t ht
      apply Cursor.kind_ne_eof_of_mem_upcoming (c := run)
      rw [← hcover]
      exact List.mem_flatMap_of_mem ha ht
    exact hd.parseTokens_eq hlisted
  · rw [hcount, ← hread]
    exact Cursor.length_attempts_le rfl
  · rw [hcount, List.length_eq_zero_iff] at hzero
    rw [← hread, ← hcover, hzero]
    rfl

end FnLang
