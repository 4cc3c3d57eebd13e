/- # FnLang.Proofs.EndOfInput — nothing after the first end of input plays a part.

A text that is read on demand and the list of its tokens show the same to a parser, and so do a list
and its part up to the first end of input: the parser stops there, with the rest of the list not even
pulled (`TokenSource.source_finish`).

Which token the end of input is can only be seen in errors.  No parser ever stands on it, so its text
is never read and its place never quoted; two lists that differ in it are parsed by a simulation whose
cursors stand on the very same tokens (`Cursor.endSimulation`).  What differs is the token that the
errors at the end point at.
-/
import FnLang.Proofs.Cover
import FnLang.Proofs.Layout
import FnLang.Proofs.Window

namespace FnLang

variable {ts : List Token} {e : Token}

/-! ## What is left unread -/

namespace TokenSource

/-- A list after the tokens before its end of input have been pulled. -/
theorem after_list_append (h : ∀ t ∈ ts, t.kind ≠ .eof) (us : List Token) (ending : EndToken) :
    (list (ts ++ us) ending).after ts.length = list us ending := by
  induction ts with
  | nil => rfl
  | cons t ts ih =>
      obtain ⟨ht, hts⟩ := List.forall_mem_cons.1 h
      have hpull : (list (t :: (ts ++ us)) ending).pull.2 = list (ts ++ us) ending := by
        simp [pull, ht]
      show (list (t :: (ts ++ us)) ending).pull.2.after ts.length = _
      rw [hpull, ih hts]

/-- When a program has been read, the end of input is the last token that has been pulled. -/
theorem source_finish (h : ∀ t ∈ ts, t.kind ≠ .eof) (he : e.kind = .eof) (junk : List Token) :
    (Cursor.start (ofList (ts ++ e :: junk))).finish.source = list junk ⟨e, he⟩ := by
  have hrest : (ofList (ts ++ e :: junk)).after ts.length = list (e :: junk) ⟨Token.ending, rfl⟩ :=
    after_list_append h _ _
  have hnext : (ofList (ts ++ e :: junk)).nth ts.length = e := by
    rw [nth, hrest]
    rfl
  obtain ⟨k, -, hat⟩ := (Cursor.At.start (ofList (ts ++ e :: junk))).run .program
  change (Cursor.start (ofList (ts ++ e :: junk))).finish.At _ k at hat
  have hend : ((ofList (ts ++ e :: junk)).nth k).kind = .eof := by
    rw [← hat.lookahead_eq]
    exact Cursor.upcoming_eq_nil_iff.1 (Cursor.upcoming_finish rfl)
  -- the run ends before an end of input that it has not passed: that is the one after `ts`
  have hk : k = ts.length := by
    rcases Nat.lt_trichotomy k ts.length with hlt | heq | hgt
    · have hlisted : (ofList (ts ++ e :: junk)).nth k = ts[k] := by
        rw [ofList, nth_list, List.getElem?_append_left hlt, List.getElem?_eq_getElem hlt]
        rfl
      rw [hlisted] at hend
      exact absurd hend (h _ (List.getElem_mem hlt))
    · exact heq
    · exact absurd (by rw [hnext]; exact he) (hat.passed _ hgt)
  rw [hat.source_eq, hk, after_succ, hrest]
  simp [pull, he]

end TokenSource

/-! ## Another end of input -/

/-- The same token, but for two ends of input. -/
inductive Token.SameButEnd (x y : Token) : Token → Token → Prop
  | same {t : Token} : t.kind ≠ .eof → SameButEnd x y t t
  | ending : SameButEnd x y x y

namespace Token.SameButEnd

variable {x y t u : Token}

theorem kind_eq (hx : x.kind = .eof) (hy : y.kind = .eof) (h : SameButEnd x y t u) :
    t.kind = u.kind := by
  cases h with
  | same => rfl
  | ending => rw [hx, hy]

theorem eq_of_ne_eof (hx : x.kind = .eof) (ht : t.kind ≠ .eof) (h : SameButEnd x y t u) : t = u := by
  cases h with
  | same => rfl
  | ending => exact absurd hx ht

theorem forall₂_self (h : ∀ t ∈ ts, t.kind ≠ .eof) : List.Forall₂ (SameButEnd x y) ts ts :=
  List.forall₂_same.2 fun t ht => .same (h t ht)

end Token.SameButEnd

/-- To show the same but for the end of input is a simulation of cursors that do not stand on it. -/
def Cursor.endSimulation {x y : Token} (hx : x.kind = .eof) (hy : y.kind = .eof) : Simulation where
  Same := Token.SameButEnd x y
  Taken t u := t.kind ≠ .eof ∧ t = u
  Related c d := c.current.kind ≠ .eof ∧ c.Shows (Token.SameButEnd x y) d
  kind_eq := Token.SameButEnd.kind_eq hx hy
  same := fun ⟨ht, htu⟩ => htu ▸ .same ht
  text_eq := fun ⟨_, htu⟩ => congrArg Token.text htu
  current := fun ⟨hc, h⟩ => ⟨hc, h.current.eq_of_ne_eof hx hc⟩
  lookahead h := h.2.lookahead
  move := fun ⟨_, h⟩ hmove => by
    obtain ⟨f, hf, hshows⟩ := h.exists_advance? hmove
    exact ⟨f, hf, kind_current_of_advance? hmove, hshows⟩
  depth_eq h := h.2.depth_eq
  withDepth _ := fun ⟨hc, h⟩ => ⟨hc, h.current, h.upcoming, h.final, rfl⟩

/-- The error that points at another end of input, if it points at one. -/
def ParseError.endingWith (e : Token) (err : ParseError) : ParseError :=
  { err with token := err.token.map fun t => if t.kind = .eof then e else t }

/-- An error that matches one points at the same token, or at the other end of input. -/
theorem ParseError.Matches.eq_endingWith {x y : Token} {e f : ParseError} (hx : x.kind = .eof)
    (h : e.Matches (fun t u => t.kind ≠ .eof ∧ t = u) (Token.SameButEnd x y) f) :
    f = e.endingWith y ∧ ∀ t ∈ e.token, t.kind = .eof → t = x := by
  obtain ⟨cause, token⟩ := e
  obtain ⟨cause', token'⟩ := f
  obtain rfl : cause = cause' := (h.cause.imp And.right).eq
  cases h.token with
  | none => exact ⟨rfl, by simp⟩
  | some htu =>
      cases htu with
      | same ht => simp [endingWith, ht]
      | ending => simp [endingWith, hx]

namespace ParseResult

/-- The result in which errors point at another end of input. -/
def endingWith (e : Token) (r : ParseResult) : ParseResult :=
  ⟨r.outcomes.map (Except.mapError (ParseError.endingWith e))⟩

theorem statements_endingWith (e : Token) (r : ParseResult) :
    (r.endingWith e).statements = r.statements := by
  show (r.outcomes.map _).filterMap _ = r.outcomes.filterMap _
  rw [List.filterMap_map]
  refine congrArg (List.filterMap · r.outcomes) (funext fun o => ?_)
  cases o <;> rfl

theorem errors_endingWith (e : Token) (r : ParseResult) :
    (r.endingWith e).errors = r.errors.map (ParseError.endingWith e) := by
  show (r.outcomes.map _).filterMap _ = (r.outcomes.filterMap _).map _
  rw [List.filterMap_map, List.map_filterMap]
  refine congrArg (List.filterMap · r.outcomes) (funext fun o => ?_)
  cases o <;> rfl

end ParseResult

/-! ## Programs -/

/-- A list shows what stands before its first end of input, and that. -/
theorem start_append_eof (h : ∀ t ∈ ts, t.kind ≠ .eof) (he : e.kind = .eof) (junk : List Token) :
    (Cursor.start (.ofList (ts ++ e :: junk))).upcoming = ts ∧
      (Cursor.start (.ofList (ts ++ e :: junk))).final = e := by
  have hnil : (Cursor.start (.ofList (e :: junk))).upcoming = [] := Cursor.upcoming_eq_nil_iff.2 he
  have hend : (Cursor.start (.ofList (e :: junk))).final = e := if_pos he
  rw [upcoming_start_append h, final_start_append h, hnil, hend, List.append_nil]
  exact ⟨rfl, rfl⟩

/-- A text that is read on demand is parsed as the list of its tokens. -/
theorem parseText_eq_parseTokens (source : String) :
    parseText source = parseTokens (tokenize source) := by
  have htokens : tokenize source =
      (TokenSource.ofText source).pending ++ [(TokenSource.ofText source).final] :=
    TokenSource.tokens_eq _
  have hlisted : ∀ t ∈ (TokenSource.ofText source).pending, t.kind ≠ .eof :=
    fun _ => TokenSource.kind_ne_eof_of_mem_pending
  obtain ⟨hup, hfinal⟩ := start_append_eof hlisted (TokenSource.ofText source).kind_final []
  rw [← htokens] at hup hfinal
  have halike : (Cursor.start (.ofText source)).Alike (.start (.ofList (tokenize source))) := by
    refine ⟨?_, ?_⟩
    · rw [hup, Cursor.upcoming_start]
    · rw [hfinal, Cursor.final_start]
  exact halike.parse_eq rfl rfl

/-- What stands after the end of input makes no difference. -/
theorem parseTokens_append_junk (h : ∀ t ∈ ts, t.kind ≠ .eof) (he : e.kind = .eof)
    (junk : List Token) : parseTokens (ts ++ e :: junk) = parseTokens (ts ++ [e]) := by
  obtain ⟨hup, hfinal⟩ := start_append_eof h he junk
  obtain ⟨hup', hfinal'⟩ := start_append_eof h he []
  have halike : (Cursor.start (.ofList (ts ++ e :: junk))).Alike (.start (.ofList (ts ++ [e]))) :=
    ⟨hup.trans hup'.symm, hfinal.trans hfinal'.symm⟩
  exact halike.parse_eq rfl rfl

/-- The outcomes of a list with an end of input and without: they are the same one by one, with the
end of input in place of the one that is made up. -/
theorem forall₂_outcomes_append_eof (h : ∀ t ∈ ts, t.kind ≠ .eof) (he : e.kind = .eof) :
    List.Forall₂ (Agree (fun t u => t.kind ≠ .eof ∧ t = u) (Token.SameButEnd .ending e) Eq)
      (parseTokens ts).outcomes (parseTokens (ts ++ [e])).outcomes := by
  obtain ⟨hup, hfinal⟩ := start_append_eof h he []
  have hshown : List.Forall₂ (Token.SameButEnd .ending e)
      (Cursor.start (.ofList ts)).upcoming (Cursor.start (.ofList (ts ++ [e]))).upcoming := by
    rw [upcoming_start_ofList h, hup]
    exact Token.SameButEnd.forall₂_self h
  have hends : Token.SameButEnd .ending e
      (Cursor.start (.ofList ts)).final (Cursor.start (.ofList (ts ++ [e]))).final := by
    rw [final_start_ofList h, hfinal]
    exact .ending
  refine Simulation.outcomes_of_move (S := Cursor.endSimulation rfl he)
    (Cursor.advance?_eq_none_of_forall₂ hshown) (fun c hc => ?_) _
  -- the starts stand on no token of the input, so the simulation begins with the first move
  obtain ⟨d, hd, hcd⟩ := Cursor.exists_shows_of_advance? hshown hends rfl hc
  exact ⟨d, hd, Cursor.kind_current_of_advance? hc, hcd⟩

/-- An outcome that agrees with one is the same, with the other end of input in its error. -/
theorem Agree.eq_mapError {x y : Token} {o p : Outcome} (hx : x.kind = .eof)
    (h : Agree (fun t u => t.kind ≠ .eof ∧ t = u) (Token.SameButEnd x y) Eq o p) :
    (∀ err, o = .error err → ∀ t ∈ err.token, t.kind = .eof → t = x) ∧
      o.mapError (ParseError.endingWith y) = p := by
  cases h with
  | ok hs =>
      subst hs
      exact ⟨by simp, rfl⟩
  | error herr =>
      obtain ⟨rfl, hends⟩ := herr.eq_endingWith hx
      refine ⟨fun err h => ?_, rfl⟩
      obtain rfl := Except.error.inj h
      exact hends

/-- A text and the list of its tokens are parsed alike.  Nothing after the first end of input of a
list is read, and a list that has none is parsed like one that has, except that an error at the end
points at an end of input without a place. -/
theorem parse_endOfInput (h : ∀ t ∈ ts, t.kind ≠ .eof) (he : e.kind = .eof) (junk : List Token) :
    (∀ source, parseText source = parseTokens (tokenize source)) ∧
    parseTokens (ts ++ e :: junk) = parseTokens (ts ++ [e]) ∧
    (Cursor.start (.ofList (ts ++ e :: junk))).finish.source = .list junk ⟨e, he⟩ ∧
    parseTokens (ts ++ [e]) = (parseTokens ts).endingWith e ∧
    (parseTokens (ts ++ [e])).program = (parseTokens ts).program ∧
    (parseTokens (ts ++ [e])).errors = (parseTokens ts).errors.map (ParseError.endingWith e) ∧
    ∀ err ∈ (parseTokens ts).errors, ∀ t ∈ err.token, t.kind = .eof → t = Token.ending := by
  obtain ⟨hpoints, hmap⟩ := (List.forall₂_and_left _ _).1 <|
    (forall₂_outcomes_append_eof h he).imp fun _ _ hop => hop.eq_mapError rfl
  have hends : parseTokens (ts ++ [e]) = (parseTokens ts).endingWith e := by
    rw [← List.forall₂_map_left_iff, List.forall₂_eq_eq_eq] at hmap
    exact congrArg ParseResult.mk hmap.symm
  refine ⟨parseText_eq_parseTokens, parseTokens_append_junk h he junk,
    TokenSource.source_finish h he junk, hends, ?_, ?_, fun err herr => ?_⟩
  · rw [hends]
    exact congrArg Node.program (ParseResult.statements_endingWith e _)
  · rw [hends]
    exact ParseResult.errors_endingWith e _
  · obtain ⟨a, ha, d, hfails⟩ := Cursor.exists_failsAt herr
    have houtcome := Cursor.outcome_of_failsAt ha hfails
    exact hpoints _ (List.mem_map.2 ⟨a, ha, houtcome⟩) err rfl

/-- `let x =` ends too soon: the error points at the end of input that is listed, and not at the
value that comes after it, which would have made a statement. -/
theorem parse_endOfInput_missingValue :
    let before : List Token := [⟨.letWord, "let", 1, 1⟩, ⟨.ident, "x", 1, 5⟩, ⟨.assign, "=", 1, 7⟩]
    let ending : Token := ⟨.eof, "", 1, 8⟩
    let junk : List Token := [⟨.int, "5", 1, 9⟩, ⟨.semicolon, ";", 1, 10⟩, ⟨.eof, "", 1, 11⟩]
    (parseTokens before).errors = [⟨.missing .letValue, some Token.ending⟩] ∧
      (parseTokens (before ++ ending :: junk)).errors = [⟨.missing .letValue, some ending⟩] ∧
      (Cursor.start (.ofList (before ++ ending :: junk))).finish.source =
        .list junk ⟨ending, rfl⟩ := by
  intro before ending junk
  have hlisted : ∀ t ∈ before, t.kind ≠ .eof := by decide
  have hending : ending.kind = .eof := rfl
  obtain ⟨-, hjunk, hsource, -, -, herrors, -⟩ := parse_endOfInput hlisted hending junk
  have hbefore : (parseTokens before).errors = [⟨.missing .letValue, some Token.ending⟩] := by
    decide +kernel
  refine ⟨hbefore, ?_, hsource⟩
  rw [hjunk, herrors, hbefore]
  rfl

end FnLang
