/- # FnLang.Proofs.Isolation — what one stray character costs.

A statement is spoilt by a stray character in the place of one of its tokens.  Such a statement still
closes its blocks and ends with its semicolon, so the statements around it are parsed as if it were
not there (`outcomes_flatMap`), and what is left to tell is how many errors it has by itself.

It has one, as a rule.  Reading breaks off on the stray character or before it, and skipping comes
to the semicolon at the end, for what it skips is the end of a statement (`Skip.rest_of_past`).  The
exception is the one of recovery: if the stray character is found right after a closing brace, that
brace is counted twice, and skipping ends too early.  Then there is one error only if what is left
happens to be statements (`Cursor.Resumes`), and `errors_length_eq_iff` says so for whole programs.
-/
import FnLang.Proofs.Composition

namespace FnLang

open Parse

/-! ## Stray characters -/

/-- There are no stray characters in what has a derivation. -/
theorem Derives.kind_ne_illegal {n : Nat} {p : Phrase} {ts : List Token} (h : Derives n p ts) :
    ∀ t ∈ ts, t.kind ≠ .illegal :=
  h.kind_ne_of_not_mem (by decide)

/-- Nor in what is taken before reading breaks off. -/
theorem Takes.kind_ne_illegal {ended : Prop} {k : Nat} {x : List Token} (h : Takes ended k x) :
    ∀ t ∈ x, t.kind ≠ .illegal := by
  induction h with
  | nil => simp
  | token ht _ ih =>
      refine List.forall_mem_cons.2 ⟨fun hk => ht ?_, ih⟩
      simp [hk]
  | phrase hd _ _ ih => exact List.forall_mem_append.2 ⟨hd.kind_ne_illegal, ih⟩
  | block hl hd _ _ ih =>
      exact List.forall_mem_cons.2 ⟨by simp [hl], List.forall_mem_append.2 ⟨hd.kind_ne_illegal, ih⟩⟩

/-- Tokens without a stray character at the start of tokens with one end before it, or on it. -/
theorem eq_or_exists_of_kind_ne_illegal {us vs xs ys : List Token} {bad : Token}
    (heq : us ++ bad :: vs = xs ++ ys) (hbad : bad.kind = .illegal)
    (hxs : ∀ t ∈ xs, t.kind ≠ .illegal) :
    (us = xs ∧ ys = bad :: vs) ∨ ∃ w ws, us = xs ++ w :: ws ∧ ys = w :: ws ++ bad :: vs := by
  rcases List.append_eq_append_iff.1 heq with ⟨ws, rfl, hws⟩ | ⟨ws, rfl, hys⟩
  · cases ws with
    | nil => exact .inl ⟨by simp, by simpa using hws.symm⟩
    | cons w ws =>
        obtain ⟨rfl, -⟩ := List.cons.inj hws
        exact absurd hbad (hxs _ (by simp))
  · cases ws with
    | nil => exact .inl ⟨by simp, by simpa using hys⟩
    | cons w ws => exact .inr ⟨w, ws, rfl, hys⟩

/-! ## Skipping to the end of a statement -/

/-- Skipping over the rest of a statement takes the semicolon at its end, and ends there. -/
theorem Skip.rest_of_past {j : Nat} {ts : List Token} {semi : Token}
    (h : Skip.past .comma j ts = some 0) (hs : semi.kind = .semicolon) :
    Skip.rest j (ts ++ [semi]) = [] := by
  induction ts generalizing j with
  | nil =>
      obtain rfl := Option.some.inj h
      exact rest_of_stop (by rw [hs]; rfl)
  | cons t ts ih =>
      rw [Skip.past] at h
      cases hat : Skip.at t.kind ((ts.head?.map Token.kind).getD .comma) j with
      | stop | takeSemicolon => rw [hat] at h; simp at h
      | goOn i =>
          rw [hat] at h
          cases ts with
          | cons u us => exact (rest_of_goOn hat).trans (ih h)
          | nil =>
              -- the last token before the semicolon leaves no block open, so it closes one or is
              -- no brace at all
              obtain rfl := Option.some.inj h
              obtain ⟨hcount, hinner⟩ := count_of_goOn hat
              have hnext : nextKind ([] ++ [semi]) = .semicolon := hs
              by_cases hr : t.kind = .rbrace
              · obtain rfl : j = 1 := by
                  rw [hr] at hcount
                  simp only [Kind.rise] at hcount
                  omega
                exact rest_of_rbrace_semicolon hr hnext
              · have hl : t.kind ≠ .lbrace := by
                  intro hl
                  rw [hl] at hcount
                  simp only [Kind.rise] at hcount
                  omega
                obtain rfl : j = 0 := by
                  rw [Kind.rise_of_ne hl hr] at hcount
                  omega
                exact (rest_of_goOn (at_of_ne hl hr fun _ hks => absurd (hinner hks)
                  (Nat.lt_irrefl 0))).trans (rest_of_stop (by rw [hs]; rfl))

/-! ## One statement -/

/-- Tokens that end with a semicolon and are parsed without an error, to one statement. -/
structure OneStatement (ts : List Token) : Prop where
  listed : ∀ t ∈ ts, t.kind ≠ .eof
  ends : ts.getLast?.map Token.kind = some .semicolon
  errors_eq : (parseTokens ts).errors = []
  length_eq : (parseTokens ts).statements.length = 1

namespace OneStatement

variable {ts us vs : List Token} {t : Token}

/-- What there is to know: the statement, and that skipping goes over all of it but its end. -/
theorem exists_derives (h : OneStatement ts) :
    ∃ s body semi, (parseTokens ts).outcomes = [.ok s] ∧ Balanced ts ∧ ts = body ++ [semi] ∧
      semi.kind = .semicolon ∧ Skip.past .comma 0 body = some 0 := by
  have ho := ParseResult.outcomes_eq_of_errors_eq_nil h.errors_eq
  obtain ⟨s, hs⟩ := List.length_eq_one_iff.1 h.length_eq
  rw [hs] at ho
  have hd := Cursor.outcomes_eq_iff.1 ho
  rw [upcoming_start_ofList h.listed] at hd
  have hbalanced := hd.balanced
  obtain ⟨semi, hlast, hsemi⟩ := Option.map_eq_some_iff.1 h.ends
  obtain ⟨us, hus⟩ := List.getLast?_eq_some_iff.1 hlast
  obtain ⟨x, hd⟩ : ∃ x, Derives nestingLimit (.statement x s) ts := by
    cases hd with
    | statements hs hss =>
        cases hss with
        | noStatements => exact ⟨_, by rwa [List.append_nil]⟩
  obtain ⟨body, tail, hsplits⟩ := hd.splits
  have hpast := hsplits.past (k := 0) (.inr (by decide : Kind.comma.continuesStatement = true))
  have heq := hsplits.eq_append
  rcases hsplits.tail_eq with ⟨rfl, hx⟩ | ⟨-, semi', rfl, hsemi'⟩
  · -- the semicolon at the end would be inside a block
    subst hus
    rw [← List.append_nil (us ++ [semi])] at hsplits
    have := hsplits.height_pos hsemi fun _ => hx
    have := hbalanced.height_eq
    omega
  · exact ⟨s, body, semi', ho, hbalanced, heq, hsemi', hpast⟩

theorem sealed (h : OneStatement ts) : Sealed ts := by
  obtain ⟨s, body, semi, -, hbalanced, heq, hsemi, -⟩ := h.exists_derives
  refine .of_balanced hbalanced fun us t hts => ?_
  rw [heq] at hts
  obtain ⟨-, ht⟩ := List.append_inj' hts rfl
  rwa [← (List.cons.inj ht).1]

end OneStatement

/-! ## A stray character in one statement -/

/-- `us ++ bad :: vs` is one statement with a stray character in the place of its token `t`. -/
structure Spoils (us : List Token) (t bad : Token) (vs : List Token) : Prop where
  one : OneStatement (us ++ t :: vs)
  kind_not_mem : t.kind ∉ [Kind.lbrace, .rbrace, .semicolon]
  kind_eq : bad.kind = .illegal

namespace Spoils

variable {us vs : List Token} {t bad : Token}

theorem height_eq (h : Spoils us t bad vs) : height (bad :: vs) = height (t :: vs) := by
  have ht := h.kind_not_mem
  simp only [List.mem_cons, List.not_mem_nil, or_false, not_or] at ht
  rw [height_cons, height_cons, h.kind_eq, Kind.rise_of_ne ht.1 ht.2.1]
  rfl

theorem listed (h : Spoils us t bad vs) : ∀ u ∈ us ++ bad :: vs, u.kind ≠ .eof := by
  have hlisted := List.forall_mem_append.1 h.one.listed
  refine List.forall_mem_append.2 ⟨hlisted.1, List.forall_mem_cons.2 ⟨by simp [h.kind_eq], ?_⟩⟩
  exact (List.forall_mem_cons.1 hlisted.2).2

/-- What comes after the stray character is skipped, with the count of blocks open before it. -/
theorem exists_skipped (h : Spoils us t bad vs) :
    ∃ j : Nat, (j : Int) = height us ∧ Skip.rest j (bad :: vs) = [] := by
  have ht := h.kind_not_mem
  simp only [List.mem_cons, List.not_mem_nil, or_false, not_or] at ht
  obtain ⟨s, body, semi, -, -, heq, hsemi, hpast⟩ := h.one.exists_derives
  obtain ⟨ws, rfl, rfl⟩ : ∃ ws, body = us ++ t :: ws ∧ vs = ws ++ [semi] := by
    rcases List.eq_nil_or_concat vs with rfl | ⟨ws, z, rfl⟩
    · obtain ⟨-, hz⟩ := List.append_inj' heq rfl
      exact absurd ((List.cons.inj hz).1 ▸ hsemi) ht.2.2
    · rw [List.concat_eq_append, ← List.cons_append, ← List.append_assoc] at heq
      obtain ⟨hbody, hz⟩ := List.append_inj' heq rfl
      exact ⟨ws, hbody.symm, by rw [List.concat_eq_append, hz]⟩
  rw [Skip.past_append, Option.bind_eq_some_iff] at hpast
  obtain ⟨j, hj, hpast⟩ := hpast
  have hheight := (Skip.inner_of_past hj).2
  have hinner := (Skip.inner_of_past hpast).1.1
  rw [Skip.past_cons_of_ne ht.1 ht.2.1 fun _ => ht.2.2] at hpast
  refine ⟨j, by simpa using hheight, ?_⟩
  have hat : Skip.at bad.kind (nextKind (ws ++ [semi])) j = .goOn j := by
    rw [h.kind_eq]
    exact Skip.at_of_ne (by decide) (by decide) fun _ => by decide
  rw [Skip.rest_of_goOn hat, Skip.rest_of_past hpast hsemi]

theorem sealed (h : Spoils us t bad vs) : Sealed (us ++ bad :: vs) := by
  obtain ⟨s, body, semi, -, hbalanced, heq, hsemi, -⟩ := h.one.exists_derives
  have ht := h.kind_not_mem
  simp only [List.mem_cons, List.not_mem_nil, or_false, not_or] at ht
  have hrise : bad.kind.rise = t.kind.rise := by
    rw [h.kind_eq, Kind.rise_of_ne ht.1 ht.2.1]
    rfl
  refine .of_balanced ⟨?_, ?_⟩ fun ws z hts => ?_
  · have hrising := Rising.append_iff.1 hbalanced.rising
    refine Rising.append_iff.2 ⟨hrising.1, hrising.2.1, ?_⟩
    rw [hrise]
    exact hrising.2.2
  · have hheight := hbalanced.height_eq
    rw [height_append] at hheight ⊢
    rw [h.height_eq, hheight]
  · -- the stray character is not the last token, as that one is the semicolon
    rcases List.eq_nil_or_concat vs with rfl | ⟨vs', z', rfl⟩
    · obtain ⟨-, hz⟩ := List.append_inj' heq rfl
      exact absurd ((List.cons.inj hz).1 ▸ hsemi) ht.2.2
    · rw [List.concat_eq_append, ← List.cons_append, ← List.append_assoc] at hts heq
      obtain ⟨-, hz⟩ := List.append_inj' hts rfl
      obtain ⟨-, hz'⟩ := List.append_inj' heq rfl
      rw [← (List.cons.inj hz).1, (List.cons.inj hz').1]
      exact hsemi

/-- The tokens before the stray character are a statement, or reading breaks off at the stray
character: what comes before would be met in the statement as it was written. -/
theorem cases (h : Spoils us t bad vs) :
    (∃ x s, Derives nestingLimit (.statement x s) us ∧ height us = 0) ∨
      ∃ k, Breaks nestingLimit .statement us k ∧ k.token = bad ∧
        ∃ ws zs, us ++ bad :: vs = ws ++ zs ∧ k.Stands Token.ending us ws zs := by
  obtain ⟨s, -, -, ho, -, -, -, -⟩ := h.one.exists_derives
  have hlisted := h.one.listed
  obtain ⟨u, rest, hu⟩ := List.exists_cons_of_ne_nil (show us ++ bad :: vs ≠ [] by simp)
  have hcases := @exists_statement u rest (by rw [← hu]; exact h.listed) nestingLimit
  rw [← hu] at hcases
  rcases hcases with ⟨x, s', xs, ys, heq, hs, hx⟩ | ⟨x, k, xs, ys, heq, hb, hk⟩
  · rcases eq_or_exists_of_kind_ne_illegal heq h.kind_eq hs.kind_ne_illegal with
      ⟨rfl, rfl⟩ | ⟨w, ws, rfl, rfl⟩
    · exact .inl ⟨x, s', hs, hs.balanced.height_eq⟩
    · -- the statement ends where it ends in the other tokens, where more comes after it
      rw [List.append_assoc] at ho hlisted
      rw [parseTokens_of_derives hlisted hs hx] at ho
      exact absurd (List.cons.inj ho).2
        (outcomes_parseTokens_ne_nil (fun u hu => hlisted u (List.mem_append_right xs hu)) nestingLimit)
  · have htaken : Takes k.Ended k.depth x := hb.taken
    -- to break off before the stray character is to break off in the other tokens
    have early {ws : List Token} (hws : us ++ t :: vs = xs ++ ws) (hk : k.Stands Token.ending x xs ws) : False := by
      rw [hws] at ho hlisted
      rw [parseTokens_of_breaks hlisted hb hk] at ho
      simp at ho
    cases hk with
    | @on rest honto =>
        rcases eq_or_exists_of_kind_ne_illegal heq h.kind_eq htaken.kind_ne_illegal with
          ⟨rfl, hys⟩ | ⟨w, ws, rfl, hys⟩
        · exact .inr ⟨k, hb, (List.cons.inj hys).1, _, _, heq, .on honto⟩
        · obtain ⟨hw, -⟩ := List.cons.inj hys
          exact (early (by rw [List.append_assoc, List.cons_append, ← hw]) (.on honto)).elim
    | @before _ rest u honto hx hahead =>
        rw [List.append_cons xs, ← hx] at heq
        rcases eq_or_exists_of_kind_ne_illegal heq h.kind_eq htaken.kind_ne_illegal with
          ⟨rfl, rfl⟩ | ⟨w, ws, rfl, rfl⟩
        · refine .inr ⟨k, hb, hahead.symm, xs, u :: bad :: vs, ?_, .before honto hx hahead⟩
          rw [hx, List.append_assoc]
          rfl
        · refine (@early (u :: (w :: ws ++ t :: vs)) ?_ (.before honto hx hahead)).elim
          rw [hx, List.append_assoc, List.append_assoc]
          rfl

end Spoils

/-! ## How many errors it has -/

namespace Cursor

variable {c d e : Cursor}

/-- What is left after an error that is found right after a closing brace is statements of the
grammar. -/
def Resumes (c : Cursor) : Prop :=
  ∀ a ∈ c.attempts, ∀ e d, a.FailsAt e d → e.Recounts d →
    ∃ ss, Derives nestingLimit (.statements ss) a.stop.upcoming

/-- Parsing has no error exactly if there are statements ahead. -/
theorem errors_parse_eq_nil_iff :
    c.parse.errors = [] ↔ ∃ ss, Derives nestingLimit (.statements ss) c.upcoming := by
  constructor
  · intro h
    exact ⟨_, outcomes_eq_iff.1 (ParseResult.outcomes_eq_of_errors_eq_nil h)⟩
  · rintro ⟨ss, h⟩
    exact h.parse.1

theorem resumes_of_errors_eq_nil (h : c.parse.errors = []) : c.Resumes := by
  intro a ha err d hfails _
  have hmem : err ∈ c.parse.errors := by
    refine List.mem_filterMap.2 ⟨.error err, ?_, rfl⟩
    rw [← outcome_of_failsAt ha hfails]
    exact List.mem_map_of_mem ha
  rw [h] at hmem
  simp at hmem

theorem resumes_iff_of_attempts_eq (h : c.attempts = d.attempt :: d.attempt.stop.attempts) :
    c.Resumes ↔
      (∀ err e, d.attempt.FailsAt err e → err.Recounts e →
        ∃ ss, Derives nestingLimit (.statements ss) d.attempt.stop.upcoming) ∧
      d.attempt.stop.Resumes := by
  unfold Resumes
  rw [h, List.forall_mem_cons]

theorem errors_parse_of_nil (h : c.upcoming = []) : c.parse.errors = [] :=
  errors_parse_eq_nil_iff.2 ⟨[], by rw [h]; exact .noStatements⟩

/-- An attempt that breaks off where no brace is counted twice, and after which nothing is left, is
one error and no more. -/
theorem one_error_of_not_recounts {err : ParseError}
    (h : c.attempts = d.attempt :: d.attempt.stop.attempts) (ho : d.attempt.outcome = .error err)
    (hfails : d.attempt.FailsAt err e) (hrec : ¬ err.Recounts e)
    (hstop : d.attempt.stop.upcoming = []) :
    c.parse.errors.length = 1 ∧ c.Resumes := by
  have hrest := errors_parse_of_nil hstop
  refine ⟨by rw [errors_parse_of_error h ho, hrest]; rfl, ?_⟩
  refine (resumes_iff_of_attempts_eq h).2 ⟨fun err' e' hfails' hrec' => ?_, ?_⟩
  · obtain ⟨herr, rfl⟩ := Prod.mk.inj (hfails.symm.trans hfails')
    obtain rfl := Except.error.inj herr
    exact absurd hrec' hrec
  · exact resumes_of_errors_eq_nil hrest

end Cursor

namespace Spoils

variable {us vs : List Token} {t bad : Token}

/-- Where no brace is counted twice, skipping goes to the end. -/
theorem rest_eq_nil (h : Spoils us t bad vs) {k : Halt} {ws zs : List Token} {f : Cursor}
    (hb : Breaks nestingLimit .statement us k) (hk : k.Stands Token.ending us ws zs)
    (heq : us ++ bad :: vs = ws ++ zs) (hf : zs = f.current :: f.upcoming)
    (hrec : ¬ k.error.Recounts (f.deepen k.depth)) : Skip.rest k.depth zs = [] := by
  have htaken : Takes k.Ended k.depth us := hb.taken
  obtain ⟨j, hj, hrest⟩ := h.exists_skipped
  obtain rfl : j = k.depth := by
    have := htaken.fits.2
    omega
  cases hk with
  | @on rest ho =>
      obtain ⟨hbad, hvs⟩ := List.cons.inj (List.append_cancel_left heq)
      rw [← hbad, ← hvs]
      exact hrest
  | @before _ rest u ho hus hahead =>
      subst hus
      rw [List.append_assoc] at heq
      obtain rfl : bad :: vs = rest := (List.cons.inj (List.append_cancel_left heq)).2
      obtain ⟨hcur, -⟩ := List.cons.inj hf
      have hr : u.kind ≠ .rbrace := by
        intro hr
        refine hrec ⟨by rw [hb.isAhead_eq, ho]; rfl, ?_⟩
        show f.current.kind = .rbrace
        rw [← hcur, hr]
      have hl : u.kind ≠ .lbrace := by
        intro hl
        have heof := (htaken.of_endsOpen ⟨u, by simp, hl⟩).resolve_left (by simp [ho])
        rw [← hahead] at heof
        exact absurd (h.kind_eq.symm.trans heof) (by decide)
      have hs : k.depth = 0 → u.kind ≠ .semicolon := by
        intro hzero hs
        have hinner := htaken.inner
        rw [← List.append_nil (ws ++ [u])] at hinner
        have hpos := hinner.height_pos hs
        rw [htaken.fits.2] at hpos
        omega
      rw [Skip.rest_of_goOn (Skip.at_of_ne hl hr hs), hrest]

variable {c d : Cursor}

/-- If the tokens before the stray character are a statement, they are read, and the next attempt
breaks off on the character. -/
theorem one_error_of_derives (h : Spoils us t bad vs) {x : Ending} {s : Node}
    (hs : Derives nestingLimit (.statement x s) us) (hheight : height us = 0)
    (hattempts : c.attempts = d.attempt :: d.attempt.stop.attempts)
    (htokens : d.current :: d.upcoming = us ++ bad :: vs) (hdepth : d.depth = 0) :
    c.parse.errors.length = 1 ∧ c.Resumes := by
  obtain ⟨e, hspan, hrest⟩ := Cursor.exists_spans us (bad :: vs) htokens (hs.ne_nil (by simp))
  have hx : x.Closes e.lookahead.kind := by
    rw [Cursor.kind_lookahead, hrest]
    show x.Closes bad.kind
    rw [h.kind_eq]
    exact fun _ => ⟨by decide, by decide, fun _ => by decide⟩
  have hrun := hs.read hspan hx
  have hok := Cursor.attempt_of_ok hrun
  obtain ⟨f, hf, hbad, hvs⟩ := Cursor.exists_advance?_of_upcoming hrest
  have hbreaks : Breaks nestingLimit .statement []
      (.on bad (.noExpression bad.kind bad.text) (some bad)) :=
    .bare (by simp [Halt.on, h.kind_eq]) (by simp [Halt.on, h.kind_eq])
      (.noOperand (by rw [h.kind_eq]; decide))
  have hreached : (Halt.on bad (.noExpression bad.kind bad.text) (some bad)).Reached f [] f := by
    rw [← hbad]
    exact .here f
  have hfdepth : f.depth = 0 := by rw [Cursor.depth_of_advance? hf, hspan.depth_eq, hdepth]
  obtain ⟨ho, hfails, -, hstop⟩ := Cursor.attempt_of_breaks hbreaks hreached hfdepth
  obtain ⟨j, hj, hskipped⟩ := h.exists_skipped
  obtain rfl : j = 0 := by omega
  rw [hbad, hvs] at hstop
  have hnext := Cursor.one_error_of_not_recounts (Cursor.attempts_of_some hf) ho hfails
    (fun hrec => Bool.false_ne_true hrec.1) (hstop.trans hskipped)
  rw [Cursor.resumes_iff_of_attempts_eq hattempts,
    Cursor.errors_parse_of_ok hattempts (by rw [hok]), hok]
  refine ⟨hnext.1, fun err e' hfails' => ?_, hnext.2⟩
  exact absurd (hfails'.symm.trans hrun) (by simp)

/-- If reading breaks off at the stray character, that is the first error, and there are more exactly
if a brace is counted twice and what is left is no statements. -/
theorem errors_length_of_breaks (h : Spoils us t bad vs) {k : Halt} {ws zs : List Token}
    (hb : Breaks nestingLimit .statement us k) (hk : k.Stands Token.ending us ws zs)
    (heq : us ++ bad :: vs = ws ++ zs)
    (hattempts : c.attempts = d.attempt :: d.attempt.stop.attempts)
    (htokens : d.current :: d.upcoming = us ++ bad :: vs) (hdepth : d.depth = 0)
    (hfinal : d.final = Token.ending) :
    1 ≤ c.parse.errors.length ∧ (c.parse.errors.length = 1 ↔ c.Resumes) := by
  have hstands : k.Stands d.final us ws zs := by rwa [hfinal]
  obtain ⟨f, hr, hzs⟩ := hstands.exists_reached (htokens.trans heq)
  obtain ⟨ho, hfails, -, hstop⟩ := Cursor.attempt_of_breaks hb hr hdepth
  by_cases hrec : k.error.Recounts (f.deepen k.depth)
  · rw [Cursor.errors_parse_of_error hattempts ho, List.length_cons]
    refine ⟨by omega, ?_⟩
    rw [Nat.add_eq_right, List.length_eq_zero_iff, Cursor.errors_parse_eq_nil_iff,
      Cursor.resumes_iff_of_attempts_eq hattempts]
    constructor
    · intro hss
      exact ⟨fun _ _ _ _ => hss,
        Cursor.resumes_of_errors_eq_nil (Cursor.errors_parse_eq_nil_iff.2 hss)⟩
    · intro hall
      exact hall.1 _ _ hfails hrec
  · have hnil := h.rest_eq_nil hb hk heq hzs hrec
    rw [hzs] at hnil
    have hone := Cursor.one_error_of_not_recounts hattempts ho hfails hrec (hstop.trans hnil)
    exact ⟨Nat.le_of_eq hone.1.symm, iff_of_true hone.1 hone.2⟩

/-- A stray character in a statement is at least one error, and no more exactly if what is left after
a brace that is counted twice is statements. -/
theorem errors_length (h : Spoils us t bad vs) :
    1 ≤ (parseTokens (us ++ bad :: vs)).errors.length ∧
      ((parseTokens (us ++ bad :: vs)).errors.length = 1 ↔
        (Cursor.start (.ofList (us ++ bad :: vs))).Resumes) := by
  obtain ⟨u, rest, hu⟩ := List.exists_cons_of_ne_nil (show us ++ bad :: vs ≠ [] by simp)
  have hlisted := h.listed
  rw [hu] at hlisted
  obtain ⟨d, hcur, hup, hdepth, hfinal, hattempts⟩ :=
    exists_attempt_of_cons hlisted nestingLimit
  have htokens : d.current :: d.upcoming = us ++ bad :: vs := by rw [hcur, hup, hu]
  rw [← hu] at hattempts
  rcases h.cases with ⟨x, s, hs, hheight⟩ | ⟨k, hb, -, ws, zs, heq, hk⟩
  · obtain ⟨hone, hresumes⟩ := h.one_error_of_derives hs hheight hattempts htokens hdepth
    exact ⟨Nat.le_of_eq hone.symm, iff_of_true hone hresumes⟩
  · exact h.errors_length_of_breaks hb hk heq hattempts htokens hdepth hfinal

end Spoils

/-! ## Programs -/

/-- A statement of a program: as it was written, or with a stray character in the place of one of its
tokens. -/
inductive Part where
  | intact (tokens : List Token)
  | spoilt (before : List Token) (replaced bad : Token) (after : List Token)

namespace Part

/-- The tokens of the program. -/
def tokens : Part → List Token
  | intact ts => ts
  | spoilt us _ bad vs => us ++ bad :: vs

def isSpoilt : Part → Bool
  | intact _ => false
  | spoilt .. => true

/-- The statement of an intact part. -/
def statements : Part → List Node
  | intact ts => (parseTokens ts).statements
  | spoilt .. => []

/-- As it was written, the part ends with a semicolon and is parsed without an error, to one
statement; and the token that was replaced is no brace and no semicolon. -/
def Valid : Part → Prop
  | intact ts => OneStatement ts
  | spoilt us t bad vs => Spoils us t bad vs

variable {p : Part} {parts : List Part}

theorem Valid.listed (h : p.Valid) : ∀ t ∈ p.tokens, t.kind ≠ .eof := by
  cases p with
  | intact => exact OneStatement.listed h
  | spoilt => exact Spoils.listed h

theorem Valid.sealed (h : p.Valid) : Sealed p.tokens := by
  cases p with
  | intact => exact OneStatement.sealed h
  | spoilt => exact Spoils.sealed h

/-- A spoilt part has an error at least; it has one, and an intact part none, exactly if what is left
after a brace that is counted twice is statements. -/
theorem Valid.errors_length (h : p.Valid) :
    p.isSpoilt.toNat ≤ (parseTokens p.tokens).errors.length ∧
      ((parseTokens p.tokens).errors.length = p.isSpoilt.toNat ↔
        (Cursor.start (.ofList p.tokens)).Resumes) := by
  cases p with
  | spoilt => exact Spoils.errors_length h
  | intact ts =>
      have herrors : (parseTokens ts).errors = [] := OneStatement.errors_eq h
      refine ⟨Nat.zero_le _, iff_of_true ?_ (Cursor.resumes_of_errors_eq_nil herrors)⟩
      exact congrArg List.length herrors

theorem statements_sublist (p : Part) : p.statements.Sublist (parseTokens p.tokens).statements := by
  cases p with
  | intact => exact List.Sublist.refl _
  | spoilt => exact List.nil_sublist _

/-- What is recorded for a program is what is recorded for its parts, one after the other. -/
theorem outcomes_flatMap (h : ∀ p ∈ parts, p.Valid) :
    (parseTokens (parts.flatMap tokens)).outcomes =
      parts.flatMap fun p => (parseTokens p.tokens).outcomes := by
  induction parts with
  | nil => exact parseTokens_nil _
  | cons p ps ih =>
      obtain ⟨hp, hps⟩ := List.forall_mem_cons.1 h
      rw [List.flatMap_cons, List.flatMap_cons, parseTokens_append hp.listed hp.sealed, ih hps]

theorem errors_flatMap (h : ∀ p ∈ parts, p.Valid) :
    (parseTokens (parts.flatMap tokens)).errors =
      parts.flatMap fun p => (parseTokens p.tokens).errors := by
  rw [ParseResult.errors, outcomes_flatMap h, List.filterMap_flatMap]
  rfl

theorem statements_flatMap (h : ∀ p ∈ parts, p.Valid) :
    (parseTokens (parts.flatMap tokens)).statements =
      parts.flatMap fun p => (parseTokens p.tokens).statements := by
  rw [ParseResult.statements, outcomes_flatMap h, List.filterMap_flatMap]
  rfl

/-- Counts that are each large enough have the right sum only if each is right. -/
theorem length_flatMap_errors (h : ∀ p ∈ parts, p.Valid) :
    parts.countP isSpoilt ≤ (parts.flatMap fun p => (parseTokens p.tokens).errors).length ∧
      ((parts.flatMap fun p => (parseTokens p.tokens).errors).length = parts.countP isSpoilt ↔
        ∀ p ∈ parts, (Cursor.start (.ofList p.tokens)).Resumes) := by
  induction parts with
  | nil => simp
  | cons p ps ih =>
      obtain ⟨hp, hps⟩ := List.forall_mem_cons.1 h
      obtain ⟨hle, hiff⟩ := hp.errors_length
      obtain ⟨hles, hiffs⟩ := ih hps
      have hcount : (p :: ps).countP isSpoilt = p.isSpoilt.toNat + ps.countP isSpoilt := by
        rw [List.countP_cons, Nat.add_comm]
        cases p.isSpoilt <;> rfl
      rw [List.forall_mem_cons, ← hiff, ← hiffs, hcount, List.flatMap_cons, List.length_append]
      constructor
      · exact Nat.add_le_add hle hles
      · constructor
        · intro heq
          omega
        · rintro ⟨heq, heqs⟩
          rw [heq, heqs]

end Part

/-- A program of statements, some of which are spoilt by a stray character, has one error for each of
these, and the statements of the others in their order, exactly if this holds of every one of them:
what is left after an error that is found right after a closing brace is statements. -/
theorem errors_length_eq_iff {parts : List Part} (h : ∀ p ∈ parts, p.Valid) :
    ((parseTokens (parts.flatMap Part.tokens)).errors.length = parts.countP Part.isSpoilt ∧
        (parts.flatMap Part.statements).Sublist
          (parseTokens (parts.flatMap Part.tokens)).statements) ↔
      ∀ p ∈ parts, (Cursor.start (.ofList p.tokens)).Resumes := by
  have hsublist : (parts.flatMap Part.statements).Sublist
      (parseTokens (parts.flatMap Part.tokens)).statements := by
    rw [Part.statements_flatMap h]
    clear h
    induction parts with
    | nil => exact List.Sublist.refl _
    | cons p ps ih =>
        rw [List.flatMap_cons, List.flatMap_cons]
        exact p.statements_sublist.append ih
  rw [and_iff_left hsublist, Part.errors_flatMap h]
  exact (Part.length_flatMap_errors h).2

/-- `fn () { g(fn () { h(fn () {}, 1) }, 2) }(3);` with a stray character for its first
comma, and `x;`. -/
def strayInList : List Part :=
  [.spoilt
    [⟨.fnWord, "fn", 0, 0⟩, ⟨.lparen, "(", 0, 0⟩, ⟨.rparen, ")", 0, 0⟩, ⟨.lbrace, "\x7b", 0, 0⟩,
     ⟨.ident, "g", 0, 0⟩, ⟨.lparen, "(", 0, 0⟩, ⟨.fnWord, "fn", 0, 0⟩, ⟨.lparen, "(", 0, 0⟩,
     ⟨.rparen, ")", 0, 0⟩, ⟨.lbrace, "\x7b", 0, 0⟩, ⟨.ident, "h", 0, 0⟩, ⟨.lparen, "(", 0, 0⟩,
     ⟨.fnWord, "fn", 0, 0⟩, ⟨.lparen, "(", 0, 0⟩, ⟨.rparen, ")", 0, 0⟩, ⟨.lbrace, "\x7b", 0, 0⟩,
     ⟨.rbrace, "\x7d", 0, 0⟩]
    ⟨.comma, ",", 0, 0⟩ ⟨.illegal, "@", 0, 0⟩
    [⟨.int, "1", 0, 0⟩, ⟨.rparen, ")", 0, 0⟩, ⟨.rbrace, "\x7d", 0, 0⟩, ⟨.comma, ",", 0, 0⟩,
     ⟨.int, "2", 0, 0⟩, ⟨.rparen, ")", 0, 0⟩, ⟨.rbrace, "\x7d", 0, 0⟩, ⟨.lparen, "(", 0, 0⟩,
     ⟨.int, "3", 0, 0⟩, ⟨.rparen, ")", 0, 0⟩, ⟨.semicolon, ";", 0, 0⟩],
   .intact [⟨.ident, "x", 0, 0⟩, ⟨.semicolon, ";", 0, 0⟩]]

/-- The stray character of `strayInList` is found right after a brace, and one brace more is counted
than closed; but what is left is the statement `(3);`. -/
theorem strayInList_resumes :
    (∀ p ∈ strayInList, p.Valid) ∧
      ∀ p ∈ strayInList, (Cursor.start (.ofList p.tokens)).Resumes := by
  have hvalid : ∀ p ∈ strayInList, p.Valid := by
    refine List.forall_mem_cons.2 ⟨?_, List.forall_mem_singleton.2 ?_⟩
    · exact ⟨⟨by decide, by decide, by decide +kernel, by decide +kernel⟩, by decide, rfl⟩
    · exact ⟨by decide, by decide, by decide +kernel, by decide +kernel⟩
  exact ⟨hvalid, (errors_length_eq_iff hvalid).1 ⟨by decide +kernel, by decide +kernel⟩⟩

/-- `f(fn () {} + 2);` with a stray character for the operator, and `x;`. -/
def strayInCall : List Part :=
  [.spoilt
    [⟨.ident, "f", 0, 0⟩, ⟨.lparen, "(", 0, 0⟩, ⟨.fnWord, "fn", 0, 0⟩, ⟨.lparen, "(", 0, 0⟩,
     ⟨.rparen, ")", 0, 0⟩, ⟨.lbrace, "\x7b", 0, 0⟩, ⟨.rbrace, "\x7d", 0, 0⟩]
    ⟨.plus, "+", 0, 0⟩ ⟨.illegal, "@", 0, 0⟩
    [⟨.int, "2", 0, 0⟩, ⟨.rparen, ")", 0, 0⟩, ⟨.semicolon, ";", 0, 0⟩],
   .intact [⟨.ident, "x", 0, 0⟩, ⟨.semicolon, ";", 0, 0⟩]]

/-- The stray character of `strayInCall` has two errors: skipping stops on the brace before it. -/
theorem strayInCall_two_errors :
    (∀ p ∈ strayInCall, p.Valid) ∧
      ¬ ((parseTokens (strayInCall.flatMap Part.tokens)).errors.length =
            strayInCall.countP Part.isSpoilt ∧
          (strayInCall.flatMap Part.statements).Sublist
            (parseTokens (strayInCall.flatMap Part.tokens)).statements) := by
  refine ⟨List.forall_mem_cons.2 ⟨?_, List.forall_mem_singleton.2 ?_⟩, fun hall => ?_⟩
  · exact ⟨⟨by decide, by decide, by decide +kernel, by decide +kernel⟩, by decide, rfl⟩
  · exact ⟨by decide, by decide, by decide +kernel, by decide +kernel⟩
  · have htwo : (parseTokens (strayInCall.flatMap Part.tokens)).errors.length = 2 := by
      decide +kernel
    rw [hall.1] at htwo
    exact absurd htwo (by decide)

end FnLang
