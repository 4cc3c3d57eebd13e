/- # FnLang.Proofs.View — what a cursor shows is all that parsing depends on.

A token source hands out tokens up to a first end of input, and the parser never asks for what comes
after it.  So outside every block a cursor is known by two things: the tokens it has still to show
(`Cursor.upcoming`), and the end token after them (`Cursor.final`), which the errors at the end of
input carry.  Cursors that agree in both are parsed alike, whatever their sources
(`Cursor.Alike.parse_eq`): to show the same is a simulation.

What an attempt takes is a span (`Cursor.exists_attempt_spans`): it leaves the cursor on a token that
was to come, or where it was, so a run has one end of input.
-/
import FnLang.Proofs.Recovery
import FnLang.Proofs.Simulation

namespace FnLang

open Parse

namespace Cursor

variable {c d e f : Cursor} {us : List Token} {limit : Nat}

/-! ## Skipping, as a span -/

/-- Spans that meet on a token make one. -/
theorem Spans.join {vs : List Token} (h : c.Spans us d) (h' : d.Spans (d.current :: vs) e) :
    c.Spans (us ++ vs) e := by
  by_cases hvs : vs = []
  · subst hvs
    obtain rfl := h'.eq_of_singleton
    rwa [List.append_nil]
  · obtain ⟨f, hf, hspan⟩ := h'.exists_advance? hvs
    exact h.trans hf hspan

theorem exists_skip_spans (k : Nat) (c : Cursor) : ∃ vs, c.Spans (c.current :: vs) (c.skip k) := by
  fun_induction skip k c with
  | case1 k c | case3 k c => exact ⟨[], .here c⟩
  | case2 k c =>
      cases hc : c.advance? with
      | none => exact ⟨[], .here c⟩
      | some d => exact ⟨[d.current], .step hc (.here d)⟩
  | case4 k c j _ d hc ih =>
      obtain ⟨vs, hspan⟩ := ih
      exact ⟨d.current :: vs, .step hc hspan⟩

/-- Recovery from a place outside every block starts there with the blocks that were opened. -/
theorem recover_deepen (h : c.depth = 0) (k : Nat) : (c.deepen k).recover = c.skip k := by
  have hc : ({ c.deepen k with depth := 0 } : Cursor) = c := by
    rw [← h]
    rfl
  show ({ c.deepen k with depth := 0 } : Cursor).skip (c.depth + k) = c.skip k
  rw [hc, h, Nat.zero_add]

/-- What an attempt takes is a span. -/
theorem exists_attempt_spans (hc : c.current.kind ≠ .eof) (hdepth : c.depth = 0) :
    ∃ us, c.Spans us (c.attempt limit).stop := by
  rcases statement_cases limit hc with ⟨x, s, us, d, hs, hspan, hx⟩ | ⟨x, h, f, hb, hr⟩
  · rw [attempt_of_ok (hs.read hspan hx)]
    exact ⟨us, hspan⟩
  · rw [attempt_of_error (hb.broken hr)]
    have hf : f.depth = 0 := by rw [hr.depth_eq, hdepth]
    obtain ⟨vs, hskip⟩ := f.exists_skip_spans h.depth
    -- skipping starts on the token that reading has broken off on, or before: the spans meet there
    show ∃ us, c.Spans us (f.deepen h.depth).recover
    rw [recover_deepen hf]
    unfold Halt.Reached at hr
    split at hr
    · exact ⟨_, hr.join hskip⟩
    · exact ⟨_, hr.1.join hskip⟩

theorem final_attempt_stop (hc : c.current.kind ≠ .eof) (hdepth : c.depth = 0) :
    (c.attempt limit).stop.final = c.final := by
  obtain ⟨us, hspan⟩ := exists_attempt_spans hc hdepth
  exact hspan.final_eq

/-- Every statement of a run is read up to the same end of input. -/
theorem final_start_of_mem {a : Attempt} (hdepth : c.depth = 0) (ha : a ∈ c.attempts) :
    a.start.final = c.final := by
  induction c, hdepth using run_induction with
  | stop c _ hc => simp [attempts_of_none hc] at ha
  | next c _ d hc hd heof ih =>
      rw [attempts_of_some hc] at ha
      rw [← final_of_advance? hc]
      rcases List.mem_cons.1 ha with rfl | ha
      · rw [start_attempt]
      · rw [ih ha, final_attempt_stop heof hd]

/-! ## Cursors that show the same -/

/-- The cursors have the same tokens to show, and the same end token after them. -/
structure Alike (c d : Cursor) : Prop where
  upcoming_eq : c.upcoming = d.upcoming
  final_eq : c.final = d.final

/-! ## Runs -/

theorem parse_of_none (h : c.advance? = none) : c.parse limit = ⟨[]⟩ := by
  rw [parse, attempts_of_none h]
  rfl

theorem outcomes_parse_of_some (h : c.advance? = some d) :
    (c.parse limit).outcomes =
      (d.attempt limit).outcome :: ((d.attempt limit).stop.parse limit).outcomes := by
  show (c.attempts limit).map Attempt.outcome = _
  rw [attempts_of_some h]
  rfl

/-- An attempt that fails adds its error. -/
theorem errors_parse_of_error {err : ParseError}
    (h : c.attempts limit = d.attempt limit :: (d.attempt limit).stop.attempts limit)
    (ho : (d.attempt limit).outcome = .error err) :
    (c.parse limit).errors = err :: ((d.attempt limit).stop.parse limit).errors := by
  unfold parse ParseResult.errors
  rw [h, List.map_cons, ho]
  rfl

/-- An attempt that reads a statement adds none. -/
theorem errors_parse_of_ok {s : Node}
    (h : c.attempts limit = d.attempt limit :: (d.attempt limit).stop.attempts limit)
    (ho : (d.attempt limit).outcome = .ok s) :
    (c.parse limit).errors = ((d.attempt limit).stop.parse limit).errors := by
  unfold parse ParseResult.errors
  rw [h, List.map_cons, ho]
  rfl

/-- An attempt leaves the cursor outside every block. -/
theorem depth_attempt_stop (hc : c.current.kind ≠ .eof) (hdepth : c.depth = 0) :
    (c.attempt limit).stop.depth = 0 :=
  (attempt_cases hc hdepth).1

/-- Cursors that show the same are parsed alike.  The current tokens play no part in it: to read a
program begins with a move. -/
theorem Alike.outcomes_eq (h : c.Alike d) (hcdepth : c.depth = 0) (hddepth : d.depth = 0) :
    (c.parse limit).outcomes = (d.parse limit).outcomes := by
  have hup : List.Forall₂ Eq c.upcoming d.upcoming := by
    rw [List.forall₂_eq_eq_eq]
    exact h.upcoming_eq
  have hdepth : c.depth = d.depth := by rw [hcdepth, hddepth]
  have houtcomes := Simulation.outcomes_of_move
    (S := Shows.simulation (congrArg Token.kind) (congrArg Token.text))
    (advance?_eq_none_of_forall₂ hup) (fun _ => exists_shows_of_advance? hup h.final_eq hdepth)
    limit
  have heq := houtcomes.imp fun _ _ hab => Agree.eq hab
  rwa [List.forall₂_eq_eq_eq] at heq

theorem Alike.parse_eq (h : c.Alike d) (hcdepth : c.depth = 0) (hddepth : d.depth = 0) :
    c.parse limit = d.parse limit :=
  congrArg ParseResult.mk (h.outcomes_eq hcdepth hddepth)

end Cursor

end FnLang
