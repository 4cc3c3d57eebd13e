/- # FnLang.Proofs.Composition — programs one after the other.

The parser has no state between two statements: what it makes of the tokens that are left is what it
makes of a list of them (`Cursor.parse_eq_parseTokens`).  So its outcomes obey two equations on lists,
one for a statement that is read (`parseTokens_of_derives`) and one for a statement that breaks off
(`parseTokens_of_breaks`).

From these, `Cursor.exists_outcomes_append`: tokens that end with a semicolon, and never close fewer
braces than they open from any place on, are parsed on their own, whatever comes after them.  The
semicolon ends whatever is being read or skipped there, since every block is closed.
-/
import FnLang.Proofs.Extent
import FnLang.Proofs.View

namespace FnLang

open Parse

/-! ## Lists of what is left -/

/-- Outside every block, only the tokens that are left matter if lists end as they do. -/
theorem Cursor.parse_eq_parseTokens {c : Cursor} (hdepth : c.depth = 0)
    (hfinal : c.final = Token.ending) (limit : Nat) :
    c.parse limit = parseTokens c.upcoming limit := by
  have hlisted : ∀ t ∈ c.upcoming, t.kind ≠ .eof := fun t => kind_ne_eof_of_mem_upcoming
  refine Alike.parse_eq ⟨?_, ?_⟩ hdepth rfl
  · rw [upcoming_start_ofList hlisted]
  · rw [final_start_ofList hlisted, hfinal]

/-! ## The two equations -/

theorem parseTokens_nil (limit : Nat) : (parseTokens [] limit).outcomes = [] := by
  unfold parseTokens TokenSource.parse
  rw [Cursor.parse_of_none (Cursor.advance?_eq_none_of_upcoming (upcoming_start_ofList (by simp)))]

/-- The first attempt on listed tokens. -/
theorem exists_attempt_of_cons {t : Token} {ts : List Token} (h : ∀ u ∈ t :: ts, u.kind ≠ .eof)
    (limit : Nat) :
    ∃ d : Cursor, d.current = t ∧ d.upcoming = ts ∧ d.depth = 0 ∧ d.final = Token.ending ∧
      (Cursor.start (.ofList (t :: ts))).attempts limit =
        d.attempt limit :: (d.attempt limit).stop.attempts limit := by
  obtain ⟨d, hd, hcur, hrest⟩ := Cursor.exists_advance?_of_upcoming (upcoming_start_ofList h)
  refine ⟨d, hcur, hrest, by rw [Cursor.depth_of_advance? hd]; rfl, ?_, Cursor.attempts_of_some hd⟩
  rw [Cursor.final_of_advance? hd, final_start_ofList h]

/-- Something comes of every token. -/
theorem outcomes_parseTokens_ne_nil {t : Token} {ts : List Token}
    (h : ∀ u ∈ t :: ts, u.kind ≠ .eof) (limit : Nat) :
    (parseTokens (t :: ts) limit).outcomes ≠ [] := by
  obtain ⟨d, -, -, -, -, hattempts⟩ := exists_attempt_of_cons h limit
  show ((Cursor.start (.ofList (t :: ts))).attempts limit).map Attempt.outcome ≠ []
  rw [hattempts]
  simp

/-- The first attempt on listed tokens comes first, then what is made of the tokens it leaves. -/
theorem parseTokens_cons {t : Token} {ts : List Token} (h : ∀ u ∈ t :: ts, u.kind ≠ .eof)
    (limit : Nat) :
    ∃ d : Cursor, d.current = t ∧ d.upcoming = ts ∧ d.depth = 0 ∧ d.final = Token.ending ∧
      (parseTokens (t :: ts) limit).outcomes =
        (d.attempt limit).outcome :: (parseTokens (d.attempt limit).stop.upcoming limit).outcomes := by
  obtain ⟨d, hcur, hrest, hdepth, hfinal, hattempts⟩ := exists_attempt_of_cons h limit
  have heof : d.current.kind ≠ .eof := by
    rw [hcur]
    exact h t (by simp)
  refine ⟨d, hcur, hrest, hdepth, hfinal, ?_⟩
  rw [← Cursor.parse_eq_parseTokens (Cursor.depth_attempt_stop heof hdepth)
    (by rw [Cursor.final_attempt_stop heof hdepth, hfinal])]
  show ((Cursor.start (.ofList (t :: ts))).attempts limit).map Attempt.outcome = _
  rw [hattempts]
  rfl

/-- A statement that is read is followed by what is made of the rest. -/
theorem parseTokens_of_derives {x : Ending} {s : Node} {us rest : List Token} {limit : Nat}
    (h : ∀ u ∈ us ++ rest, u.kind ≠ .eof) (hs : Derives limit (.statement x s) us)
    (hx : x.Closes (nextKind rest)) :
    (parseTokens (us ++ rest) limit).outcomes = .ok s :: (parseTokens rest limit).outcomes := by
  obtain ⟨t, vs, rfl, -⟩ := hs.exists_statementStart
  obtain ⟨d, hcur, hup, -, -, hparse⟩ := parseTokens_cons h limit
  obtain ⟨e, hspan, hrest⟩ := Cursor.exists_spans (c := d) (t :: vs) rest
    (by rw [hcur, hup]; rfl) (by simp)
  rw [← hrest, ← Cursor.kind_lookahead] at hx
  rwa [Cursor.attempt_of_ok (hs.read hspan hx), hrest] at hparse

/-- Where the cursor is when reading breaks off that takes `x`: the tokens before the one under it,
and those from that one on, up to the end token `z`. -/
inductive Halt.Stands (h : Halt) (z : Token) (x : List Token) : List Token → List Token → Prop
  | on {rest : List Token} : h.onto = true → Stands h z x x (h.token :: rest)
  | before {us rest : List Token} {u : Token} : h.onto = false → x = us ++ [u] →
      rest.head?.getD z = h.token → Stands h z x us (u :: rest)

theorem Halt.Stands.exists_reached {c : Cursor} {x us vs : List Token} {k : Halt}
    (hk : k.Stands c.final x us vs) (hc : c.current :: c.upcoming = us ++ vs) :
    ∃ f, k.Reached c x f ∧ vs = f.current :: f.upcoming := by
  cases hk with
  | @on rest ho =>
      obtain ⟨f, hspan, rfl⟩ := Cursor.exists_spans (c := c) (x ++ [k.token]) rest
        (by rw [hc, List.append_assoc]; rfl) (by simp)
      exact ⟨f, by rwa [Halt.Reached, if_pos ho], by rw [hspan.last_eq]⟩
  | @before _ rest u ho hx hahead =>
      subst hx
      obtain ⟨f, hspan, rfl⟩ := Cursor.exists_spans (c := c) (us ++ [u]) rest
        (by rw [hc, List.append_assoc]; rfl) (by simp)
      refine ⟨f, ?_, by rw [hspan.last_eq]⟩
      rw [Halt.Reached, if_neg (by simp [ho]), f.lookahead_eq_getD, hspan.final_eq]
      exact ⟨hspan, hahead⟩

/-- A statement that breaks off is followed by what is made of the tokens that skipping leaves. -/
theorem parseTokens_of_breaks {x us vs : List Token} {k : Halt} {limit : Nat}
    (h : ∀ u ∈ us ++ vs, u.kind ≠ .eof) (hb : Breaks limit .statement x k)
    (hk : k.Stands Token.ending x us vs) :
    (parseTokens (us ++ vs) limit).outcomes =
      .error k.error :: (parseTokens (Skip.rest k.depth vs) limit).outcomes := by
  have hne : us ++ vs ≠ [] := by cases hk <;> simp
  obtain ⟨t, ts, hts⟩ := List.exists_cons_of_ne_nil hne
  rw [hts] at h ⊢
  obtain ⟨d, rfl, rfl, hdepth, hfinal, hparse⟩ := parseTokens_cons h limit
  rw [← hfinal] at hk
  obtain ⟨f, hr, rfl⟩ := hk.exists_reached hts.symm
  obtain ⟨houtcome, -, -, hstop⟩ := Cursor.attempt_of_breaks hb hr hdepth
  rwa [houtcome, hstop] at hparse

/-- At the start of some tokens a statement is read, or reading it breaks off in them. -/
theorem exists_statement {t : Token} {ts : List Token} (h : ∀ u ∈ t :: ts, u.kind ≠ .eof)
    (limit : Nat) :
    (∃ x s us rest, t :: ts = us ++ rest ∧ Derives limit (.statement x s) us ∧
        x.Closes (nextKind rest)) ∨
      ∃ x k us vs, t :: ts = us ++ vs ∧ Breaks limit .statement x k ∧
        k.Stands Token.ending x us vs := by
  obtain ⟨d, rfl, rfl, -, hfinal, -⟩ := exists_attempt_of_cons h limit
  rcases Cursor.statement_cases limit (h d.current (by simp)) with
    ⟨x, s, us, e, hs, hspan, hx⟩ | ⟨x, k, e, hb, hr⟩
  · rw [Cursor.kind_lookahead] at hx
    exact .inl ⟨x, s, us, e.upcoming, hspan.tokens_eq, hs, hx⟩
  · refine .inr ⟨x, k, ?_⟩
    unfold Halt.Reached at hr
    split at hr
    · next ho =>
        refine ⟨x, k.token :: e.upcoming, ?_, hb, .on ho⟩
        rw [hr.tokens_eq, List.append_assoc]
        rfl
    · next ho =>
        obtain ⟨hspan, hahead⟩ := hr
        obtain ⟨us, u, rfl⟩ := (List.eq_nil_or_concat x).resolve_left hspan.ne_nil
        rw [List.concat_eq_append] at hspan hb ⊢
        refine ⟨us, u :: e.upcoming, ?_, hb, .before (by simpa using ho) rfl ?_⟩
        · rw [hspan.tokens_eq, List.append_assoc]
          rfl
        · rw [← hahead, e.lookahead_eq_getD, hspan.final_eq, hfinal]

/-! ## Tokens that end a statement and close every block -/

/-- From any place on, the tokens open no more braces than they close, and they end with a semicolon
unless there are none. -/
structure Sealed (ts : List Token) : Prop where
  falling : ∀ us vs, ts = us ++ vs → height vs ≤ 0
  ends : ∀ us t, ts = us ++ [t] → t.kind = .semicolon

namespace Sealed

variable {ts us vs xs rs : List Token} {k : Nat}

theorem of_balanced (h : Balanced ts) (hends : ∀ us t, ts = us ++ [t] → t.kind = .semicolon) :
    Sealed ts := by
  refine ⟨fun us vs hts => ?_, hends⟩
  have hrising := h.rising
  have hheight := h.height_eq
  rw [hts] at hrising hheight
  rw [height_append] at hheight
  have := hrising.nonneg_of_append
  omega

theorem suffix (h : Sealed ts) (hv : vs <:+ ts) : Sealed vs := by
  obtain ⟨us, rfl⟩ := hv
  constructor
  · intro ws xs hvs
    exact h.falling (us ++ ws) xs (by rw [hvs, List.append_assoc])
  · intro ws t hvs
    exact h.ends (us ++ ws) t (by rw [hvs, List.append_assoc])

theorem height_le (h : Sealed ts) : height ts ≤ 0 :=
  h.falling [] ts rfl

/-- Sealed tokens have a semicolon at their end. -/
theorem exists_semicolon (h : Sealed ts) (hts : ts ≠ []) :
    ∃ us semi, ts = us ++ [semi] ∧ semi.kind = .semicolon := by
  obtain ⟨us, semi, heq⟩ := (List.eq_nil_or_concat ts).resolve_left hts
  rw [List.concat_eq_append] at heq
  exact ⟨us, semi, heq, h.ends us semi heq⟩

/-- Skipping ends in sealed tokens, whatever comes after them, if it counts no more blocks than they
close. -/
theorem rest_append (h : Sealed vs) (hvs : vs ≠ []) (hk : k + height vs ≤ 0) :
    Skip.rest k (vs ++ rs) = Skip.rest k vs ++ rs := by
  induction vs generalizing k with
  | nil => exact absurd rfl hvs
  | cons v vs ih =>
      by_cases hnil : vs = []
      · -- skipping counts no block on the last token, so it stops on that semicolon by itself
        subst hnil
        have hs : v.kind = .semicolon := h.ends [] v rfl
        have hzero : k = 0 := by
          simp only [height_cons, height_nil, hs, Kind.rise] at hk
          omega
        subst hzero
        have hat (next : Kind) : Skip.at v.kind next 0 = .stop := by rw [hs]; rfl
        rw [Skip.rest_of_stop (hat _)]
        exact Skip.rest_of_stop (hat _)
      have hnext : nextKind (vs ++ rs) = nextKind vs := by
        cases vs with
        | nil => exact absurd rfl hnil
        | cons => rfl
      cases hat : Skip.at v.kind (nextKind vs) k with
      | stop => rw [Skip.rest_of_stop hat, List.cons_append, Skip.rest_of_stop (by rwa [hnext])]
      | takeSemicolon =>
          rw [Skip.rest_of_takeSemicolon hat, List.cons_append,
            Skip.rest_of_takeSemicolon (by rwa [hnext])]
          cases vs with
          | nil => exact absurd rfl hnil
          | cons => rfl
      | goOn j =>
          have hj := (Skip.count_of_goOn hat).1
          rw [Skip.rest_of_goOn hat, List.cons_append, Skip.rest_of_goOn (by rwa [hnext])]
          rw [height_cons] at hk
          exact ih (h.suffix (List.suffix_cons _ _)) hnil (by omega)

end Sealed

/-- A statement that takes all of sealed tokens takes the semicolon at their end. -/
theorem Derives.ending_of_sealed {n : Nat} {x : Ending} {s : Node} {xs : List Token}
    (hs : Derives n (.statement x s) xs) (hsealed : Sealed xs) : x = .semicolon := by
  obtain ⟨ws, semi, rfl, hsemi⟩ := hsealed.exists_semicolon (hs.ne_nil (by simp))
  obtain ⟨body, tail, hsplits⟩ := hs.splits
  have hheight := hsealed.height_le
  refine Decidable.byContradiction fun hx => ?_
  -- the semicolon would stand in a block, and this block would be open at the end
  rw [← List.append_nil (ws ++ [semi])] at hsplits
  have hpos := hsplits.height_pos hsemi fun _ => hx
  omega

/-- Reading breaks off before the end of sealed tokens: a semicolon that has been taken leaves a block
open. -/
theorem Takes.ne_nil_of_sealed {ended : Prop} {k : Nat} {x ys : List Token}
    (h : Takes ended k x) (hne : x ++ ys ≠ []) (hsealed : Sealed (x ++ ys)) : ys ≠ [] := by
  rintro rfl
  obtain ⟨ws, semi, hws, hsemi⟩ := hsealed.exists_semicolon hne
  have hheight := hsealed.height_le
  have hinner := h.inner
  rw [List.append_nil] at hws hheight
  rw [hws, ← List.append_nil (ws ++ [semi])] at hinner
  have hpos := hinner.height_pos hsemi
  rw [← hws] at hpos
  omega

/-- Where reading breaks off in sealed tokens, the count of open blocks is not too large for skipping
to end in them, and the place is the same whatever comes after them. -/
theorem Breaks.stands_of_sealed {n : Nat} {x us vs : List Token} {k : Halt} {z : Token}
    (h : ∀ t ∈ us ++ vs, t.kind ≠ .eof) (hb : Breaks n .statement x k) (hk : k.Stands z x us vs)
    (hsealed : Sealed (us ++ vs)) :
    k.depth + height vs ≤ 0 ∧ ∀ y rs, k.Stands y x us (vs ++ rs) := by
  have htaken : Takes k.Ended k.depth x := hb.taken
  have hheight := hsealed.height_le
  rw [height_append] at hheight
  cases hk with
  | on ho =>
      rw [htaken.fits.2] at hheight
      exact ⟨hheight, fun y rs => .on ho⟩
  | @before _ rest u ho hx hahead =>
      subst hx
      rw [List.append_cons] at h hsealed
      obtain ⟨v, rest, rfl⟩ := List.exists_cons_of_ne_nil (htaken.ne_nil_of_sealed (by simp) hsealed)
      have hv : v = k.token := hahead
      have hlbrace : u.kind ≠ .lbrace := by
        intro hu
        have heof := (htaken.of_endsOpen ⟨u, by simp, hu⟩).resolve_left (by simp [ho])
        exact h v (by simp) (by rw [hv]; exact heof)
      have hle : (k.depth : Int) ≤ height us := by
        rw [htaken.height_of_concat hlbrace]
        split <;> omega
      exact ⟨by omega, fun y rs => .before ho rfl hv⟩

/-- One attempt in sealed tokens comes to what it comes to without the tokens after them, and what it
leaves of them is sealed. -/
theorem Cursor.attempt_of_sealed {e : Cursor} {t : Token} {ts rs : List Token} (hdepth : e.depth = 0)
    (hlisted : ∀ u ∈ t :: ts, u.kind ≠ .eof)
    (htokens : e.current :: e.upcoming = t :: ts ++ rs) (hsealed : Sealed (t :: ts)) (limit : Nat) :
    ∃ ys, Sealed ys ∧ ys.length < (t :: ts).length ∧
      (e.attempt limit).stop.upcoming = ys ++ rs ∧
      (parseTokens (t :: ts) limit).outcomes =
        (e.attempt limit).outcome :: (parseTokens ys limit).outcomes := by
  rcases exists_statement hlisted limit with ⟨x, s, us, ys, heq, hs, hx⟩ | ⟨x, j, us, vs, heq, hb, hj⟩
  · rw [heq] at hlisted hsealed htokens ⊢
    obtain ⟨f, hspan, hfup⟩ := exists_spans us (ys ++ rs) (by rw [htokens, List.append_assoc])
      (hs.ne_nil (by simp))
    have hclose : x.Closes f.lookahead.kind := by
      rw [kind_lookahead, hfup]
      cases ys with
      | nil =>
          rw [List.append_nil] at hsealed
          exact fun hne => absurd (hs.ending_of_sealed hsealed) hne
      | cons => exact hx
    have hattempt := attempt_of_ok (hs.read hspan hclose)
    refine ⟨ys, hsealed.suffix (List.suffix_append us ys), ?_, by rw [hattempt, hfup], ?_⟩
    · have hpos := List.length_pos_iff.2 (hs.ne_nil (by simp))
      rw [List.length_append]
      omega
    · rw [hattempt]
      exact parseTokens_of_derives hlisted hs hx
  · rw [heq] at hlisted hsealed htokens ⊢
    obtain ⟨hcount, hstands⟩ := hb.stands_of_sealed hlisted hj hsealed
    obtain ⟨f, hr, hf⟩ := (hstands e.final rs).exists_reached (by rw [htokens, List.append_assoc])
    obtain ⟨ho, -, -, hstop⟩ := attempt_of_breaks hb hr hdepth
    have hvs := hsealed.suffix (List.suffix_append us vs)
    have hne : vs ≠ [] := by cases hj <;> simp
    rw [← hf, hvs.rest_append hne hcount] at hstop
    refine ⟨Skip.rest j.depth vs, hvs.suffix (Skip.rest_suffix j.depth vs), ?_, hstop, ?_⟩
    · obtain ⟨v, vs, rfl⟩ := List.exists_cons_of_ne_nil hne
      have hle := (Skip.rest_cons_suffix j.depth v vs).length_le
      rw [List.length_append, List.length_cons]
      omega
    · rw [ho]
      exact parseTokens_of_breaks hlisted hb hj

/-- Sealed tokens are parsed on their own, whatever comes after them: by induction on their number,
with one attempt after the other. -/
theorem Cursor.exists_outcomes_append {c : Cursor} {xs rs : List Token} (hdepth : c.depth = 0)
    (hup : c.upcoming = xs ++ rs) (hsealed : Sealed xs) (limit : Nat) :
    ∃ d : Cursor, d.depth = 0 ∧ d.upcoming = rs ∧ d.final = c.final ∧
      (c.parse limit).outcomes = (parseTokens xs limit).outcomes ++ (d.parse limit).outcomes := by
  induction hk : xs.length using Nat.strongRecOn generalizing c xs with
  | _ k ih =>
    cases xs with
    | nil => exact ⟨c, hdepth, hup, rfl, by rw [parseTokens_nil]; rfl⟩
    | cons t ts =>
        obtain ⟨e, he, hcur, hrest⟩ := exists_advance?_of_upcoming hup
        have hedepth : e.depth = 0 := by rw [depth_of_advance? he, hdepth]
        have heof := kind_current_of_advance? he
        have hlisted : ∀ u ∈ t :: ts, u.kind ≠ .eof := by
          intro u hu
          exact kind_ne_eof_of_mem_upcoming (c := c) (by rw [hup]; exact List.mem_append_left rs hu)
        obtain ⟨ys, hys, hless, hstop, hparse⟩ :=
          attempt_of_sealed hedepth hlisted (by rw [hcur, hrest]; rfl) hsealed limit
        obtain ⟨d, hd, hdup, hfinal, houtcomes⟩ :=
          ih _ (by rwa [← hk]) (depth_attempt_stop heof hedepth) hstop hys rfl
        refine ⟨d, hd, hdup, ?_, ?_⟩
        · rw [hfinal, final_attempt_stop heof hedepth, final_of_advance? he]
        · rw [outcomes_parse_of_some he, houtcomes, hparse, List.cons_append]

/-- Sealed tokens in front of any list are parsed on their own. -/
theorem parseTokens_append {xs : List Token} (h : ∀ t ∈ xs, t.kind ≠ .eof) (hsealed : Sealed xs)
    (rs : List Token) (limit : Nat) :
    (parseTokens (xs ++ rs) limit).outcomes =
      (parseTokens xs limit).outcomes ++ (parseTokens rs limit).outcomes := by
  obtain ⟨d, hdepth, hup, hfinal, hparse⟩ :=
    Cursor.exists_outcomes_append rfl (upcoming_start_append h rs) hsealed limit
  have halike : d.Alike (Cursor.start (.ofList rs)) := by
    refine ⟨hup, ?_⟩
    rw [hfinal, final_start_append h rs]
  show ((Cursor.start (.ofList (xs ++ rs))).parse limit).outcomes = _
  rw [hparse, halike.outcomes_eq hdepth rfl]
  rfl

end FnLang
