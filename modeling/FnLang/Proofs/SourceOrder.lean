/- # FnLang.Proofs.SourceOrder — errors come in the order of the text.

The tokens of a text come in the order of their places (`tokenize_ordered`), since every slice begins
where the one before it has ended or later.  An error points at the token that reading breaks off at,
or at the brace of a block that is not closed; either is one of the tokens of the statement that
fails, or the end of input.  And skipping takes it in or stops right before it, so the statements that
are read afterwards begin no earlier in the text (`Cursor.exists_error_token`).

Two errors may point at the same token: where skipping stops right before the token of an error, the
next statement begins with it.
-/
import Mathlib.Order.Basic
import FnLang.Proofs.ErrorPosition
import FnLang.Proofs.Layout

namespace FnLang

/-! ## The order of places -/

/-- Places are ordered by their lines, and within a line by their columns. -/
instance : LE Location :=
  ⟨fun l m => l.line < m.line ∨ l.line = m.line ∧ l.column ≤ m.column⟩

namespace Location

theorem le_iff {l m : Location} :
    l ≤ m ↔ l.line < m.line ∨ l.line = m.line ∧ l.column ≤ m.column := Iff.rfl

instance : Preorder Location where
  le_refl l := .inr ⟨rfl, Int.le_refl l.column⟩
  le_trans l m n hlm hmn := by
    rw [le_iff] at hlm hmn ⊢
    omega

theorem le_step (l : Location) (c : Char) : l ≤ l.step c := by
  rw [le_iff, step]
  split
  · exact .inl (Int.lt_succ l.line)
  · exact .inr ⟨rfl, Int.le_of_lt (Int.lt_succ l.column)⟩

/-- To read on never leads back. -/
theorem le_after (l : Location) (cs : List Char) : l ≤ l.after cs := by
  induction cs generalizing l with
  | nil => exact le_refl l
  | cons c cs ih => exact (l.le_step c).trans (ih (l.step c))

end Location

/-- The places of pieces, and the place behind them, come one after the other from the place where the
pieces begin. -/
theorem Cut.places_ordered {l : Location} {cs tail : List Char} {ps : List Piece}
    (h : Cut l cs ps tail) :
    (l :: (ps.map (fun p => p.token.location) ++ [l.after cs])).Pairwise (· ≤ ·) := by
  induction h with
  | @tail l u _ => simp [l.le_after u]
  | @piece l u v tail c cs ps _ _ hslice _ ih =>
      have hend : l.after (u ++ c :: cs) =
          ((l.after u).after (Lexeme.first c cs).slice).after v := by
        rw [hslice, Location.after_append, Location.after_append]
      obtain ⟨hlater, hrest⟩ := List.pairwise_cons.1 ih
      have hfirst : l ≤ l.after u := l.le_after u
      have hslices : l.after u ≤ (l.after u).after (Lexeme.first c cs).slice := Location.le_after _ _
      rw [List.map_cons, List.cons_append, hend]
      refine List.pairwise_cons.2 ⟨?_, List.pairwise_cons.2 ⟨?_, hrest⟩⟩
      · exact List.forall_mem_cons.2
          ⟨hfirst, fun m hm => hfirst.trans (hslices.trans (hlater m hm))⟩
      · exact fun m hm => hslices.trans (hlater m hm)

/-- Tokens in the order of their places. -/
def Ordered (ts : List Token) : Prop :=
  ts.Pairwise fun t u => t.location ≤ u.location

/-- The tokens of a text come in the order of their places. -/
theorem tokenize_ordered (source : String) : Ordered (tokenize source) := by
  obtain ⟨ps, tail, hcut, htokens⟩ := (Input.ofSource source).exists_cut
  have hplaces : ((tokenize source).map Token.location).Pairwise (· ≤ ·) := by
    rw [tokenize, htokens, List.map_append, List.map_map]
    exact (List.pairwise_cons.1 hcut.places_ordered).2
  exact List.pairwise_map.1 hplaces

theorem Ordered.sublist {ts us : List Token} (h : Ordered us) (hts : ts.Sublist us) : Ordered ts :=
  List.Pairwise.sublist hts h

/-- The first of some tokens stands no later than any of them. -/
theorem Ordered.head_le {t u : Token} {ts : List Token} (h : Ordered (t :: ts)) (hu : u ∈ t :: ts) :
    t.location ≤ u.location := by
  rcases List.mem_cons.1 hu with rfl | hu
  · exact le_refl _
  · exact (List.pairwise_cons.1 h).1 u hu

namespace Cursor

variable {c : Cursor} {e : ParseError}

/-! ## One attempt -/

/-- The error of an attempt points at one of its tokens or at the end of input, and nothing that comes
before that token is left to be read. -/
theorem exists_error_token (hc : c.current.kind ≠ .eof) (hdepth : c.depth = 0)
    (he : c.attempt.outcome = .error e) :
    ∃ us t vs, c.current :: c.upcoming ++ [c.final] = us ++ t :: vs ∧ e.token = some t ∧
      c.attempt.stop.upcoming ++ [c.final] <:+ t :: vs := by
  rcases (attempt_cases hc hdepth).2 with
    ⟨x, s, us, -, -, -, hok⟩ | ⟨x, h, f, hb, hr, -, houtcome, hstop⟩
  · rw [hok] at he
    exact absurd he (by simp)
  rw [houtcome] at he
  obtain rfl := Except.error.inj he
  -- skipping begins on the token that the error is found on, or on the one before it
  have hleft : c.attempt.stop.upcoming <:+ h.error.left f := by
    rw [hstop, ParseError.left]
    split
    · exact Skip.rest_cons_suffix _ _ _
    · exact Skip.rest_suffix _ _
  by_cases hblock : h.error.cause = .unclosedBlock
  · obtain ⟨hnil, htokens, us, lb, vs, rfl, hlb, -, -⟩ := hb.unclosed_block hr hc hblock
    have hnone : c.attempt.stop.upcoming = [] := by
      rw [ParseError.left, hblock] at hleft
      exact List.suffix_nil.1 (hnil ▸ hleft)
    refine ⟨us, lb, vs ++ [c.final], by rw [htokens]; simp, hlb, ?_⟩
    rw [hnone]
    exact ⟨lb :: vs, rfl⟩
  · obtain ⟨htokens, hhead⟩ := hb.tokens_eq hr
    have hfrom : ∃ vs, h.error.left f ++ [c.final] = h.token :: vs := by
      cases hrest : h.error.left f with
      | nil =>
          rw [hrest] at hhead
          exact ⟨[], congrArg (fun t => [t]) hhead⟩
      | cons t rest =>
          rw [hrest] at hhead
          exact ⟨rest ++ [c.final], congrArg (· :: (rest ++ [c.final])) hhead⟩
    obtain ⟨vs, hvs⟩ := hfrom
    refine ⟨x, h.token, vs, ?_, hb.error_token.resolve_left hblock, ?_⟩
    · rw [htokens, List.append_assoc, hvs]
    · obtain ⟨ws, hws⟩ := hleft
      rw [← hvs, ← hws, List.append_assoc]
      exact List.suffix_append ws _

/-! ## A run -/

/-- The errors of a run point at tokens that come in order: by induction on the attempts, as what is
left after an attempt begins no earlier than the token that its error points at. -/
theorem exists_error_tokens (hdepth : c.depth = 0) (hordered : Ordered (c.upcoming ++ [c.final])) :
    ∃ ts, c.parse.errors.map ParseError.token = ts.map some ∧
      Ordered ts ∧ ∀ t ∈ ts, t ∈ c.upcoming ++ [c.final] := by
  induction c, hdepth using run_induction with
  | stop c _ hc =>
      rw [parse_of_none hc]
      exact ⟨[], rfl, .nil, by simp⟩
  | next c _ d hc hd heof ih =>
      have hattempts : c.attempts = d.attempt :: d.attempt.stop.attempts := attempts_of_some hc
      have hfinal : d.attempt.stop.final = c.final := by
        rw [final_attempt_stop heof hd, final_of_advance? hc]
      rw [upcoming_of_advance? hc] at hordered ⊢
      rw [hfinal] at ih
      have hsuffix : d.attempt.stop.upcoming ++ [c.final] <:+ d.current :: d.upcoming ++ [c.final] := by
        obtain ⟨us, hus⟩ := attempt_suffix heof hd
        exact ⟨us, by rw [← List.append_assoc, hus]⟩
      obtain ⟨ts, hts, hsorted, hmem⟩ := ih (hordered.sublist hsuffix.sublist)
      have hlater : ∀ t ∈ ts, t ∈ d.current :: d.upcoming ++ [c.final] :=
        fun t ht => hsuffix.subset (hmem t ht)
      cases ho : d.attempt.outcome with
      | ok s =>
          rw [errors_parse_of_ok hattempts ho]
          exact ⟨ts, hts, hsorted, hlater⟩
      | error e =>
          rw [errors_parse_of_error hattempts ho]
          obtain ⟨us, t, vs, htokens, ht, hrest⟩ := exists_error_token heof hd ho
          rw [final_of_advance? hc] at htokens hrest
          have hfrom : Ordered (t :: vs) := by
            rw [htokens] at hordered
            exact hordered.sublist (List.sublist_append_right us _)
          rw [List.map_cons, ht, hts]
          refine ⟨t :: ts, rfl, List.pairwise_cons.2 ⟨fun u hu => ?_, hsorted⟩, ?_⟩
          · exact hfrom.head_le (hrest.subset (hmem u hu))
          · refine List.forall_mem_cons.2 ⟨?_, hlater⟩
            rw [htokens]
            simp

end Cursor

/-! ## Texts -/

/-- The tokens of a text are those that a parser is shown. -/
theorem tokenize_eq_upcoming (source : String) :
    let run := Cursor.start (.ofText source)
    tokenize source = run.upcoming ++ [run.final] := by
  intro run
  rw [Cursor.upcoming_start, Cursor.final_start]
  exact TokenSource.tokens_eq _

/-- Every error that is not about nesting points at a token of the text, which may be the end of
input; it is the first token of the statement that fails, or stands after that.  From one error to the
next these tokens never go back in the text. -/
theorem errors_in_order (source : String) :
    let run := Cursor.start (.ofText source)
    (parseText source).outcomes = run.attempts.map Attempt.outcome ∧
    (∀ a ∈ run.attempts, ∀ e, a.outcome = .error e → e.cause ≠ .nestedTooDeeply →
      ∃ before after t, tokenize source = before ++ a.start.current :: after ∧
        t ∈ a.start.current :: after ∧ e.token = some t) ∧
    ∃ ts : List Token,
      ((parseText source).errors.filter (·.cause ≠ .nestedTooDeeply)).map ParseError.token =
        ts.map some ∧
      ts.Pairwise fun t u => t.line < u.line ∨ t.line = u.line ∧ t.column ≤ u.column := by
  intro run
  have htokens := tokenize_eq_upcoming source
  refine ⟨rfl, fun a ha e he _ => ?_, ?_⟩
  · obtain ⟨hdepth, heof⟩ := Cursor.depth_start rfl ha
    obtain ⟨before, hbefore⟩ := Cursor.start_suffix rfl ha
    have hfinal := Cursor.final_start_of_mem rfl ha
    rw [Cursor.eq_attempt_of_mem ha] at he
    obtain ⟨us, t, vs, hsplit, ht, -⟩ := Cursor.exists_error_token heof hdepth he
    refine ⟨before, a.start.upcoming ++ [a.start.final], t, ?_, ?_, ht⟩
    · rw [htokens, ← hbefore, hfinal, List.append_assoc]
      rfl
    · rw [← List.cons_append, hsplit]
      simp
  · have hordered := tokenize_ordered source
    rw [htokens] at hordered
    obtain ⟨ts, hts, hsorted, -⟩ := Cursor.exists_error_tokens rfl hordered
    -- the tokens of some of the errors come in order as those of all do
    have hsome : (((parseText source).errors.filter (·.cause ≠ .nestedTooDeeply)).map
        ParseError.token).Sublist (ts.map some) := by
      rw [← hts]
      exact List.filter_sublist.map _
    obtain ⟨us, hus, heq⟩ := List.sublist_map_iff.1 hsome
    exact ⟨us, heq, (hsorted.sublist hus).imp Location.le_iff.1⟩

end FnLang
