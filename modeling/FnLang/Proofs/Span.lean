/- # FnLang.Proofs.Span — the tokens a cursor moves over.

A cursor may stand on a text or on a list, and it shows two tokens at most.  What it has still to
show is `Cursor.upcoming`, the tokens after the current one up to the end of input, and `Cursor.final`,
the token that says so.  The parser's behaviour is stated on these.

`Cursor.Spans` is the form in which the rest of the theory speaks of moving: `c.Spans ts d` says that
`ts` are the tokens from the one under `c` to the one under `d`.  Every part of what is upcoming is a
span (`exists_spans`), two spans that meet make one (`Spans.trans`), and a span falls into the spans
of its parts (`Spans.split`).
-/
import FnLang.Parse.Program

namespace FnLang

/-! ## What is still to come -/

namespace TokenSource

/-- The tokens of a source up to the end of input. -/
def pending (s : TokenSource) : List Token :=
  if s.pull.1.kind = .eof then [] else s.pull.1 :: s.pull.2.pending
termination_by s.remaining
decreasing_by exact remaining_pull_lt (by assumption)

theorem pending_of_eof {s : TokenSource} (h : s.pull.1.kind = .eof) : s.pending = [] := by
  rw [pending, if_pos h]

theorem pending_of_ne_eof {s : TokenSource} (h : s.pull.1.kind ≠ .eof) :
    s.pending = s.pull.1 :: s.pull.2.pending := by
  rw [pending, if_neg h]

/-- No end of input stands among the tokens before it. -/
theorem kind_ne_eof_of_mem_pending {s : TokenSource} {t : Token} (h : t ∈ s.pending) :
    t.kind ≠ .eof := by
  fun_induction pending s with
  | case1 => simp at h
  | case2 s hs ih =>
      rcases List.mem_cons.1 h with rfl | h
      · exact hs
      · exact ih h

/-- The first end of input that a source hands out. -/
def final (s : TokenSource) : Token :=
  if s.pull.1.kind = .eof then s.pull.1 else s.pull.2.final
termination_by s.remaining
decreasing_by exact remaining_pull_lt (by assumption)

theorem final_of_eof {s : TokenSource} (h : s.pull.1.kind = .eof) : s.final = s.pull.1 := by
  rw [final, if_pos h]

theorem final_of_ne_eof {s : TokenSource} (h : s.pull.1.kind ≠ .eof) :
    s.final = s.pull.2.final := by
  rw [final, if_neg h]

theorem kind_final (s : TokenSource) : s.final.kind = .eof := by
  fun_induction final s with
  | case1 s h => exact h
  | case2 s h ih => exact ih

/-- A list shows what stands before its first end of input, and that end or its own. -/
theorem pending_final_list (ts : List Token) (ending : EndToken) :
    (list ts ending).pending = ts.takeWhile (·.kind ≠ .eof) ∧
      (list ts ending).final = (ts.find? (·.kind = .eof)).getD ending := by
  induction ts with
  | nil => exact ⟨pending_of_eof ending.2, final_of_eof ending.2⟩
  | cons t ts ih =>
      by_cases ht : t.kind = .eof
      · have hpull : (list (t :: ts) ending).pull.1.kind = .eof := ht
        rw [pending_of_eof hpull, final_of_eof hpull]
        simp [ht, pull]
      · have hpull : (list (t :: ts) ending).pull.1.kind ≠ .eof := ht
        have hrest : (list (t :: ts) ending).pull.2 = list ts ending := by simp [pull, ht]
        rw [pending_of_ne_eof hpull, final_of_ne_eof hpull, hrest, ih.1, ih.2]
        simp [ht, pull]

theorem pending_ofList_eq (ts : List Token) :
    (ofList ts).pending = ts.takeWhile (·.kind ≠ .eof) :=
  (pending_final_list ts _).1

theorem final_ofList (ts : List Token) :
    (ofList ts).final = (ts.find? (·.kind = .eof)).getD Token.ending :=
  (pending_final_list ts _).2

end TokenSource

namespace Cursor

/-- The tokens after the current one, up to the end of input. -/
def upcoming (c : Cursor) : List Token :=
  if c.lookahead.kind = .eof then [] else c.lookahead :: c.source.pending

theorem upcoming_start (s : TokenSource) : (start s).upcoming = s.pending := by
  by_cases h : s.pull.1.kind = .eof
  · simp [upcoming, start, h, TokenSource.pending_of_eof h]
  · simp [upcoming, start, h, TokenSource.pending_of_ne_eof h]

theorem upcoming_eq_nil_iff {c : Cursor} : c.upcoming = [] ↔ c.lookahead.kind = .eof := by
  unfold upcoming
  split <;> simp_all

/-- The end token that comes after the upcoming tokens. -/
def final (c : Cursor) : Token :=
  if c.lookahead.kind = .eof then c.lookahead else c.source.final

theorem final_start (s : TokenSource) : (start s).final = s.final := by
  rw [TokenSource.final]
  rfl

theorem kind_final (c : Cursor) : c.final.kind = .eof := by
  unfold final
  split
  · next h => exact h
  · exact c.source.kind_final

theorem lookahead_eq_getD (c : Cursor) : c.lookahead = c.upcoming.head?.getD c.final := by
  unfold upcoming final
  split <;> rfl

/-- To move on takes the first of the upcoming tokens. -/
theorem upcoming_of_advance? {c d : Cursor} (h : c.advance? = some d) :
    c.upcoming = d.current :: d.upcoming := by
  unfold advance? at h
  split at h
  · simp at h
  · next hc =>
      obtain rfl := Option.some.inj h
      simp only [upcoming, if_neg hc]
      rw [TokenSource.pending]

theorem exists_advance?_of_upcoming {c : Cursor} {t : Token} {ts : List Token}
    (h : c.upcoming = t :: ts) :
    ∃ d, c.advance? = some d ∧ d.current = t ∧ d.upcoming = ts := by
  cases hc : c.advance? with
  | none =>
      rw [upcoming_eq_nil_iff.2 (advance?_eq_none_iff.1 hc)] at h
      simp at h
  | some d =>
      rw [upcoming_of_advance? hc] at h
      exact ⟨d, rfl, (List.cons.inj h).1, (List.cons.inj h).2⟩

theorem advance?_eq_none_of_upcoming {c : Cursor} (h : c.upcoming = []) : c.advance? = none :=
  advance?_eq_none_iff.2 (upcoming_eq_nil_iff.1 h)

theorem depth_of_advance? {c d : Cursor} (h : c.advance? = some d) : d.depth = c.depth := by
  unfold advance? at h
  split at h
  · simp at h
  · obtain rfl := Option.some.inj h
    rfl

theorem kind_current_of_advance? {c d : Cursor} (h : c.advance? = some d) :
    d.current.kind ≠ .eof := by
  intro hd
  rw [current_of_advance? h] at hd
  rw [advance?_eq_none_iff.2 hd] at h
  simp at h

theorem final_of_advance? {c d : Cursor} (h : c.advance? = some d) : d.final = c.final := by
  unfold advance? at h
  split at h
  · simp at h
  · next hc =>
      obtain rfl := Option.some.inj h
      have hfinal : c.final = c.source.final := if_neg hc
      rw [hfinal]
      exact final_start c.source

/-! ## Blocks that count as open -/

/-- The same place with `k` more blocks open. -/
def deepen (c : Cursor) (k : Nat) : Cursor :=
  { c with depth := c.depth + k }

@[simp] theorem current_deepen (c : Cursor) (k : Nat) : (c.deepen k).current = c.current := rfl

@[simp] theorem lookahead_deepen (c : Cursor) (k : Nat) :
    (c.deepen k).lookahead = c.lookahead := rfl

@[simp] theorem depth_deepen (c : Cursor) (k : Nat) : (c.deepen k).depth = c.depth + k := rfl

@[simp] theorem upcoming_deepen (c : Cursor) (k : Nat) : (c.deepen k).upcoming = c.upcoming := rfl

@[simp] theorem final_deepen (c : Cursor) (k : Nat) : (c.deepen k).final = c.final := rfl

@[simp] theorem deepen_zero (c : Cursor) : c.deepen 0 = c := rfl

@[simp] theorem deepen_deepen (c : Cursor) (k m : Nat) :
    (c.deepen k).deepen m = c.deepen (k + m) := by
  simp [deepen, Nat.add_assoc]

theorem advance?_deepen (c : Cursor) (k : Nat) :
    (c.deepen k).advance? = c.advance?.map (deepen · k) := by
  by_cases h : c.lookahead.kind = .eof <;> simp [advance?, deepen, h]

/-! ## Spans -/

/-- `c.Spans ts d`: the tokens from the one under `c` to the one under `d` are `ts`. -/
inductive Spans : Cursor → List Token → Cursor → Prop
  | here (c : Cursor) : Spans c [c.current] c
  | step {c d e : Cursor} {ts : List Token} :
      c.advance? = some d → Spans d ts e → Spans c (c.current :: ts) e

namespace Spans

variable {c d e f : Cursor} {ts us vs : List Token} {t : Token}

theorem ne_nil (h : Spans c ts d) : ts ≠ [] := by
  cases h <;> simp

theorem head_eq (h : Spans c (t :: ts) d) : c.current = t := by
  cases h <;> rfl

theorem eq_of_singleton (h : Spans c [t] d) : d = c := by
  cases h with
  | here => rfl
  | step _ h => exact absurd rfl h.ne_nil

/-- A span of two tokens or more begins with a move. -/
theorem exists_advance? (h : Spans c (t :: ts) e) (hts : ts ≠ []) :
    ∃ d, c.advance? = some d ∧ Spans d ts e := by
  cases h with
  | here => exact absurd rfl hts
  | step hd h => exact ⟨_, hd, h⟩

/-- Two spans make one when the second begins on the token after the first. -/
theorem trans (h : Spans c us d) (hd : d.advance? = some e) (h' : Spans e vs f) :
    Spans c (us ++ vs) f := by
  induction h with
  | here c => exact step hd h'
  | step hc _ ih => exact step hc (ih hd)

/-- A span of two parts goes through the last token of the first part. -/
theorem split (h : Spans c (us ++ vs) f) (hus : us ≠ []) (hvs : vs ≠ []) :
    ∃ d e, Spans c us d ∧ d.advance? = some e ∧ Spans e vs f := by
  induction us generalizing c with
  | nil => exact absurd rfl hus
  | cons u us ih =>
      obtain ⟨e, he, h'⟩ := h.exists_advance? (by simp [hvs])
      obtain rfl := h.head_eq
      by_cases hnil : us = []
      · subst hnil
        exact ⟨c, e, here c, he, h'⟩
      · obtain ⟨d', e', hd', he', hv⟩ := ih h' hnil
        exact ⟨d', e', step he hd', he', hv⟩

theorem depth_eq (h : Spans c ts d) : d.depth = c.depth := by
  induction h with
  | here => rfl
  | step hc _ ih => rw [ih, depth_of_advance? hc]

/-- Before a span, its tokens are the current one and the first of the upcoming ones. -/
theorem tokens_eq (h : Spans c ts d) : c.current :: c.upcoming = ts ++ d.upcoming := by
  induction h with
  | here => rfl
  | step hc _ ih => rw [upcoming_of_advance? hc, ih, List.cons_append]

/-- The end of input does not move. -/
theorem final_eq (h : Spans c ts d) : d.final = c.final := by
  induction h with
  | here => rfl
  | step hc _ ih => rw [ih, final_of_advance? hc]

theorem suffix (h : Spans c ts d) : d.current :: d.upcoming <:+ c.current :: c.upcoming := by
  induction h with
  | here => exact List.suffix_refl _
  | step hc _ ih =>
      rw [upcoming_of_advance? hc]
      exact ih.trans (List.suffix_cons _ _)

theorem last_eq (h : Spans c (ts ++ [t]) d) : d.current = t := by
  by_cases hts : ts = []
  · subst hts
    obtain rfl := h.eq_of_singleton
    exact h.head_eq
  · obtain ⟨_, _, _, _, h'⟩ := h.split hts (by simp)
    obtain rfl := h'.eq_of_singleton
    exact h'.head_eq

theorem deepen (h : Spans c ts d) (k : Nat) : Spans (c.deepen k) ts (d.deepen k) := by
  induction h with
  | here c => exact here (c.deepen k)
  | @step c d' e ts hc _ ih =>
      exact step (by rw [advance?_deepen, hc]; rfl) ih

end Spans

/-- Every non-empty start of the tokens at a cursor is a span. -/
theorem exists_spans {c : Cursor} (ts rest : List Token)
    (h : c.current :: c.upcoming = ts ++ rest) (hts : ts ≠ []) :
    ∃ d, c.Spans ts d ∧ d.upcoming = rest := by
  induction ts generalizing c with
  | nil => exact absurd rfl hts
  | cons t ts ih =>
      obtain ⟨rfl, hup⟩ := List.cons.inj h
      cases ts with
      | nil => exact ⟨c, .here c, hup⟩
      | cons u us =>
          obtain ⟨d, hd, hcur, hrest⟩ := exists_advance?_of_upcoming hup
          obtain ⟨e, he, heup⟩ := ih (c := d) (by rw [hcur, hrest]; rfl) (by simp)
          exact ⟨e, .step hd he, heup⟩

/-- A token after a non-empty start of the tokens at a cursor, the end of input among them, comes next
after the span of that start. -/
theorem exists_spans_lookahead {c : Cursor} {us rest : List Token} {u : Token}
    (h : c.current :: c.upcoming ++ [c.final] = us ++ u :: rest) (hus : us ≠ []) :
    ∃ d, c.Spans us d ∧ d.lookahead = u := by
  rcases List.eq_nil_or_concat rest with rfl | ⟨rest, z, rfl⟩
  · obtain ⟨heq, hu⟩ := List.append_inj' h rfl
    obtain ⟨d, hd, hnil⟩ := exists_spans us [] (by rw [heq, List.append_nil]) hus
    refine ⟨d, hd, ?_⟩
    rw [lookahead_eq_getD, hnil, hd.final_eq]
    exact (List.cons.inj hu).1
  · rw [List.concat_eq_append, ← List.cons_append, ← List.append_assoc] at h
    obtain ⟨d, hd, hup⟩ := exists_spans _ _ (List.append_inj' h rfl).1 hus
    refine ⟨d, hd, ?_⟩
    rw [lookahead_eq_getD, hup]
    rfl

end Cursor

/-! ## Listed tokens -/

variable {ts : List Token}

theorem upcoming_start_append (h : ∀ t ∈ ts, t.kind ≠ .eof) (rs : List Token) :
    (Cursor.start (.ofList (ts ++ rs))).upcoming = ts ++ (Cursor.start (.ofList rs)).upcoming := by
  simp only [Cursor.upcoming_start, TokenSource.pending_ofList_eq]
  exact List.takeWhile_append_of_pos (by simpa using h)

theorem final_start_append (h : ∀ t ∈ ts, t.kind ≠ .eof) (rs : List Token) :
    (Cursor.start (.ofList (ts ++ rs))).final = (Cursor.start (.ofList rs)).final := by
  have hnone : ts.find? (·.kind = .eof) = none := by simpa using h
  rw [Cursor.final_start, Cursor.final_start, TokenSource.final_ofList, TokenSource.final_ofList,
    List.find?_append, hnone]
  rfl

/-- A list without an end of input is what its cursor shows. -/
theorem upcoming_start_ofList (h : ∀ t ∈ ts, t.kind ≠ .eof) :
    (Cursor.start (.ofList ts)).upcoming = ts := by
  have hup := upcoming_start_append h []
  have hnil : (Cursor.start (.ofList [])).upcoming = [] := Cursor.upcoming_eq_nil_iff.2 rfl
  rwa [List.append_nil, hnil, List.append_nil] at hup

/-- The end token of a list that has none. -/
theorem final_start_ofList (h : ∀ t ∈ ts, t.kind ≠ .eof) :
    (Cursor.start (.ofList ts)).final = Token.ending := by
  have hfinal := final_start_append h []
  rw [List.append_nil] at hfinal
  exact hfinal

end FnLang
