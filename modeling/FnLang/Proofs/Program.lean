/- # FnLang.Proofs.Program — which programs are parsed, and into which trees.

A program is read statement by statement.  Each statement that is read is one of the grammar
(`Derives.of_run_statement`), and what comes after it does not go on with it, so the statements make
up a list of the grammar.  Conversely the statements of such a list are read one after the other.
`Cursor.reads_iff_derives` says both for any cursor and any limit on nesting; for listed tokens and the
limit of the parser that is `parseTokens_eq_program_iff`, the exact account of the programs without
errors.
-/
import FnLang.Proofs.Soundness

namespace FnLang

open Parse

namespace Cursor

variable {c d : Cursor} {s : Node} {e : ParseError} {ss : List Node} {limit : Nat}

/-! ## One statement after another -/

theorem attempts_of_none (h : c.advance? = none) : c.attempts limit = [] := by
  rw [attempts]
  split
  · rfl
  · next d hd => simp [h] at hd

theorem attempts_of_some (h : c.advance? = some d) :
    c.attempts limit = d.attempt limit :: (d.attempt limit).stop.attempts limit := by
  rw [attempts]
  split
  · next hd => simp [h] at hd
  · next d' hd =>
      obtain rfl := Option.some.inj (h.symm.trans hd)
      rfl

theorem finish_of_none (h : c.advance? = none) : c.finish limit = c := by
  unfold finish
  rw [attempts_of_none h]
  rfl

theorem finish_of_some (h : c.advance? = some d) :
    c.finish limit = (d.attempt limit).stop.finish limit := by
  unfold finish
  rw [attempts_of_some h, List.getLast?_cons]
  cases ((d.attempt limit).stop.attempts limit).getLast? <;> rfl

/-- Every attempt in a run is the one from its start. -/
theorem eq_attempt_of_mem {a : Attempt} (ha : a ∈ c.attempts limit) : a = a.start.attempt limit := by
  fun_induction attempts c limit with
  | case1 => simp at ha
  | case2 c d hc ih =>
      rcases List.mem_cons.1 ha with rfl | ha
      · rw [start_attempt]
      · exact ih ha

theorem attempt_of_ok (h : (statement (Parse.expression limit)).run c = (.ok s, d)) :
    c.attempt limit = { start := c, outcome := .ok s, stop := d } := by
  unfold attempt
  rw [h]

theorem attempt_of_error (h : (statement (Parse.expression limit)).run c = (.error e, d)) :
    c.attempt limit = { start := c, outcome := .error e, stop := d.recover } := by
  unfold attempt
  rw [h]

theorem run_of_outcome_eq_ok (h : (c.attempt limit).outcome = .ok s) :
    (statement (Parse.expression limit)).run c = (.ok s, (c.attempt limit).stop) := by
  unfold attempt at h ⊢
  split at h
  · next s' d' hrun =>
      obtain rfl := Except.ok.inj h
      rw [hrun]
  · simp at h

/-! ## Reading without an error -/

/-- With expressions at most `n` deep inside one another, the parser reads the upcoming tokens as the
statements, one after the other, and has no error. -/
inductive Reads (n : Nat) : Cursor → List Node → Prop
  | done {c : Cursor} : c.advance? = none → Reads n c []
  | next {c d e : Cursor} {s : Node} {ss : List Node} : c.advance? = some d →
      (statement (Parse.expression n)).run d = (.ok s, e) → Reads n e ss → Reads n c (s :: ss)

theorem Reads.derives {n : Nat} (h : Reads n c ss) : Derives n (.statements ss) c.upcoming := by
  induction h with
  | done hc =>
      rw [upcoming_eq_nil_iff.2 (advance?_eq_none_iff.1 hc)]
      exact .noStatements
  | next hc hrun _ ih =>
      obtain ⟨x, us, hst, hspan, hx⟩ := Derives.of_run_statement (kind_current_of_advance? hc) hrun
      rw [upcoming_of_advance? hc, hspan.tokens_eq]
      refine .statements hst ih fun hne t ht => ?_
      rw [lookahead_eq_getD, ht] at hx
      exact (hx hne).2.1

/-- The statements that are read make up the tokens, and the statements of the tokens are read. -/
theorem reads_iff_derives {n : Nat} : Reads n c ss ↔ Derives n (.statements ss) c.upcoming := by
  refine ⟨Reads.derives, fun h => ?_⟩
  induction ss generalizing c with
  | nil =>
      generalize hup : c.upcoming = ts at h
      cases h with
      | noStatements => exact .done (advance?_eq_none_of_upcoming hup)
  | cons s ss ih =>
      generalize hup : c.upcoming = ts at h
      cases h with
      | @statements _ x _ _ us vs hst hss hf =>
          obtain ⟨t, us', rfl, -⟩ := hst.exists_statementStart
          obtain ⟨d, hd, hcur, hrest⟩ := exists_advance?_of_upcoming hup
          obtain ⟨e, he, hvs⟩ := exists_spans (c := d) (t :: us') vs
            (by rw [hcur, hrest]; rfl) (by simp)
          subst hvs
          have hx := hss.closes (z := e.final) hf fun _ => by simp [e.kind_final]
          rw [← lookahead_eq_getD] at hx
          exact .next hd (hst.read he hx) (ih hss)

/-- To read without an error is to record statements only. -/
theorem reads_iff_outcomes :
    Reads limit c ss ↔ (c.attempts limit).map Attempt.outcome = ss.map .ok := by
  constructor
  · intro h
    induction h with
    | done hc =>
        rw [attempts_of_none hc]
        rfl
    | next hc hrun _ ih =>
        rw [attempts_of_some hc, attempt_of_ok hrun, List.map_cons, List.map_cons, ih]
  · intro h
    induction ss generalizing c with
    | nil =>
        cases hc : c.advance? with
        | none => exact .done hc
        | some d =>
            rw [attempts_of_some hc] at h
            simp at h
    | cons s ss ih =>
        cases hc : c.advance? with
        | none =>
            rw [attempts_of_none hc] at h
            simp at h
        | some d =>
            rw [attempts_of_some hc] at h
            obtain ⟨hs, hss⟩ := List.cons.inj h
            exact .next hc (run_of_outcome_eq_ok hs) (ih hss)

theorem outcomes_eq_iff : (c.attempts limit).map Attempt.outcome = ss.map .ok ↔
    Derives limit (.statements ss) c.upcoming :=
  reads_iff_outcomes.symm.trans reads_iff_derives

end Cursor

/-! ## Programs without errors -/

namespace ParseResult

/-- A result without errors has its statements for outcomes. -/
theorem outcomes_eq_of_errors_eq_nil {r : ParseResult} (h : r.errors = []) :
    r.outcomes = r.statements.map .ok := by
  unfold errors at h
  unfold statements
  induction hos : r.outcomes generalizing r with
  | nil => rfl
  | cons o os ih =>
      rw [hos] at h
      cases o with
      | error e => simp at h
      | ok s => simpa using ih (r := ⟨os⟩) (by simpa using h) rfl

theorem errors_of_outcomes_eq {r : ParseResult} {ss : List Node}
    (h : r.outcomes = ss.map .ok) : r.errors = [] := by
  rw [errors, h, List.filterMap_map, List.filterMap_eq_nil_iff]
  intro s _
  rfl

theorem statements_of_outcomes_eq {r : ParseResult} {ss : List Node}
    (h : r.outcomes = ss.map .ok) : r.statements = ss := by
  rw [statements, h, List.filterMap_map]
  exact List.filterMap_some

end ParseResult

/-- What a cursor's tokens are parsed to, when they are a list of statements. -/
theorem Derives.parse {c : Cursor} {ss : List Node} {limit : Nat}
    (h : Derives limit (.statements ss) c.upcoming) :
    (c.parse limit).errors = [] ∧ (c.parse limit).program = .program ss := by
  have ho : (c.parse limit).outcomes = ss.map .ok := Cursor.outcomes_eq_iff.2 h
  refine ⟨ParseResult.errors_of_outcomes_eq ho, ?_⟩
  rw [ParseResult.program, ParseResult.statements_of_outcomes_eq ho]

/-- Listed tokens are parsed without an error exactly if they are statements of the grammar, nested
no deeper than the parser goes, and they are parsed to the tree that the grammar builds. -/
theorem parseTokens_eq_program_iff {ts : List Token} (h : ∀ t ∈ ts, t.kind ≠ .eof) (p : Node) :
    ((parseTokens ts).errors = [] ∧ (parseTokens ts).program = p) ↔
      ∃ ss n, p = .program ss ∧ n ≤ nestingLimit ∧ Derives n (.statements ss) ts := by
  constructor
  · rintro ⟨herrors, rfl⟩
    have ho := ParseResult.outcomes_eq_of_errors_eq_nil herrors
    refine ⟨_, nestingLimit, rfl, Nat.le_refl _, ?_⟩
    have hd := Cursor.outcomes_eq_iff.1 ho
    rwa [upcoming_start_ofList h] at hd
  · rintro ⟨ss, n, rfl, hn, hd⟩
    refine Derives.parse ?_
    rw [upcoming_start_ofList h]
    exact hd.mono hn

/-- The tokens of `a + b; c` make two statements, since a name does not go on with the sum. -/
theorem parseTokens_sum_then_name :
    let name (s : String) : Token := { kind := .ident, text := s }
    let ts := [name "a", { kind := .plus, text := "+" }, name "b",
      { kind := .semicolon, text := ";" }, name "c"]
    (parseTokens ts).errors = [] ∧ (parseTokens ts).program = .program
      [.expression (.binary (.identifier "a") "+" (.identifier "b")),
        .expression (.identifier "c")] := by
  have operand (n : Nat) (s : String) :
      Derives (n + 1) (.expression .primary .plain (.identifier s))
        [{ kind := .ident, text := s }] := Derives.identifier (t := ⟨.ident, s, 0, 0⟩) rfl
  refine (parseTokens_eq_program_iff (by decide) _).2 ⟨_, 2, rfl, by decide, ?_⟩
  have plus : (⟨.plus, "+", 0, 0⟩ : Token).kind ∈ Level.sum.operators := by decide
  have sum := Derives.binary ((operand 1 "a").loosen (by decide)) plus
    ((operand 0 "b").loosen (by decide))
  exact .statements (.expression (.ended (sum.loosen (by decide)) rfl))
    (.statements (.expression (.bare ((operand 1 "c").loosen (by decide)))) .noStatements
      (by simp)) (by simp)

end FnLang
