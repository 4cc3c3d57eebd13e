/- # FnLang.Proofs.Run — one step of a parser at a time.

The parsers are sequences of a few moves: take any token, take a token of a kind, take it only if it
is there, go on while something continues, read items up to a closing token.  Each lemma here says
what one of them does in one situation, as an equation between runs, so that a parser can be followed
along its text by rewriting.  Errors propagate by `run_bind_error` of `Parse.Basic`.
-/
import FnLang.Proofs.Span

namespace FnLang.Parse

variable {α β γ : Type} {c d e : Cursor} {k : Kind} {w : Wanted}

/-! ## Single moves -/

/-- An error in the first two parsers of a sequence is an error of the sequence. -/
theorem run_bind_bind_error {p : Parse α} {q : α → Parse β} {err : ParseError}
    (f : α → β → Parse γ) (h : (p >>= q).run c = (.error err, d)) :
    (p >>= fun a => q a >>= f a).run c = (.error err, d) := by
  rw [run_bind] at h ⊢
  split at h
  · next a d' hp => exact run_bind_error (f a) h
  · next err' d' hp =>
      obtain ⟨herr, rfl⟩ := Prod.mk.inj h
      obtain rfl := Except.error.inj herr
      rfl

/-- A sequence that gives a value does so in both parts. -/
theorem exists_run_of_run_bind {p : Parse α} {q : α → Parse β} {b : β}
    (h : (p >>= q).run c = (.ok b, e)) :
    ∃ a d, p.run c = (.ok a, d) ∧ (q a).run d = (.ok b, e) := by
  rw [run_bind] at h
  split at h
  · next a d hp => exact ⟨a, d, hp, h⟩
  · simp at h

theorem run_advance_of_some (h : c.advance? = some d) : advance.run c = (.ok true, d) := by
  rw [run_advance, h]

theorem run_advance_of_none (h : c.advance? = none) : advance.run c = (.ok false, c) := by
  rw [run_advance, h]

theorem run_advanceTo_of_some (h : c.advance? = some d) :
    (advanceTo w).run c = (.ok (), d) := by
  rw [run_advanceTo, h]

theorem run_advanceTo_of_none (h : c.advance? = none) :
    (advanceTo w).run c = (.error ⟨.missing w, some c.lookahead⟩, c) := by
  rw [run_advanceTo, h]

theorem run_expect_of_eq (h : c.advance? = some d) (hk : d.current.kind = k) :
    (expect k).run c = (.ok d.current, d) := by
  rw [run_expect, if_pos (by rw [← Cursor.current_of_advance? h, hk]), h]
  rfl

theorem run_expect_of_ne (h : c.lookahead.kind ≠ k) :
    (expect k).run c = (.error ⟨.unexpected k c.lookahead.kind, some c.lookahead⟩, c) := by
  rw [run_expect, if_neg h]

theorem run_accept_of_eq (h : c.advance? = some d) (hk : d.current.kind = k) :
    (accept k).run c = (.ok true, d) := by
  rw [run_accept, if_pos (by rw [← Cursor.current_of_advance? h, hk]), h]
  rfl

theorem run_accept_of_ne (h : c.lookahead.kind ≠ k) : (accept k).run c = (.ok false, c) := by
  rw [run_accept, if_neg h]

/-! ## Repetition -/

section

variable {next : Kind → Option (α → Parse α)} {step : α → Parse α} {a b : α} {err : ParseError}

/-- A fold ends before a token that does not continue it. -/
theorem run_foldAhead_of_none (h : next c.lookahead.kind = none) :
    (foldAhead next a).run c = (.ok a, c) := by
  change runFoldAhead next a c = _
  rw [runFoldAhead]
  simp only [h]

/-- A fold ends at the end of input. -/
theorem run_foldAhead_of_advance?_none (h : c.advance? = none) :
    (foldAhead next a).run c = (.ok a, c) := by
  change runFoldAhead next a c = _
  rw [runFoldAhead]
  split
  · rfl
  split
  · rfl
  · next d hd => simp [h] at hd

/-- A step of a fold that succeeds is followed by the rest of the fold. -/
theorem run_foldAhead_of_ok (h : next c.lookahead.kind = some step) (hd : c.advance? = some d)
    (he : (step a).run d = (.ok b, e)) :
    (foldAhead next a).run c = (foldAhead next b).run e := by
  change runFoldAhead next a c = runFoldAhead next b e
  rw [runFoldAhead]
  simp only [h]
  split
  · next hn => simp [hn] at hd
  · next d' hd' =>
      obtain rfl := Option.some.inj (hd.symm.trans hd')
      split
      · next b' e' he' =>
          simp only [he, Prod.mk.injEq, Except.ok.injEq] at he'
          obtain ⟨rfl, rfl⟩ := he'
          rfl
      · next err e' he' => simp [he] at he'

/-- A step of a fold that fails ends the fold. -/
theorem run_foldAhead_of_error (h : next c.lookahead.kind = some step) (hd : c.advance? = some d)
    (he : (step a).run d = (.error err, e)) :
    (foldAhead next a).run c = (.error err, e) := by
  change runFoldAhead next a c = _
  rw [runFoldAhead]
  simp only [h]
  split
  · next hn => simp [hn] at hd
  · next d' hd' =>
      obtain rfl := Option.some.inj (hd.symm.trans hd')
      split
      · next b' e' he' => simp [he] at he'
      · next err' e' he' =>
          rw [← he', he]

end

section

variable {closing : Kind} {unclosed err : ParseError} {item : Parse α} {a : α}

/-- Items end on the closing token. -/
theorem run_itemsUntil_of_eq (h : c.current.kind = closing) :
    (itemsUntil closing unclosed item).run c = (.ok [], c) := by
  change runItemsUntil closing unclosed item c = _
  rw [runItemsUntil, if_pos h]

/-- An item that fails ends the items. -/
theorem run_itemsUntil_of_error (h : c.current.kind ≠ closing)
    (hd : item.run c = (.error err, d)) :
    (itemsUntil closing unclosed item).run c = (.error err, d) := by
  change runItemsUntil closing unclosed item c = _
  rw [runItemsUntil, if_neg h]
  split
  · next err' d' hd' =>
      obtain ⟨herr, rfl⟩ := Prod.mk.inj (hd.symm.trans hd')
      obtain rfl := Except.error.inj herr
      rfl
  · next a d' hd' => simp [hd] at hd'

/-- Items that the input ends in are unclosed. -/
theorem run_itemsUntil_of_none (h : c.current.kind ≠ closing) (hd : item.run c = (.ok a, d))
    (he : d.advance? = none) :
    (itemsUntil closing unclosed item).run c = (.error unclosed, d) := by
  change runItemsUntil closing unclosed item c = _
  rw [runItemsUntil, if_neg h]
  split
  · next err' d' hd' => simp [hd] at hd'
  · next a' d' hd' =>
      obtain ⟨ha, rfl⟩ := Prod.mk.inj (hd.symm.trans hd')
      split
      · rfl
      · next e' he' => simp [he] at he'

/-- An item is followed by the items from the token after it on. -/
theorem run_itemsUntil_of_some (h : c.current.kind ≠ closing) (hd : item.run c = (.ok a, d))
    (he : d.advance? = some e) :
    (itemsUntil closing unclosed item).run c =
      match (itemsUntil closing unclosed item).run e with
      | (.ok as, f) => (.ok (a :: as), f)
      | (.error err, f) => (.error err, f) := by
  change runItemsUntil closing unclosed item c = match runItemsUntil closing unclosed item e with
    | (.ok as, f) => (.ok (a :: as), f)
    | (.error err, f) => (.error err, f)
  rw [runItemsUntil, if_neg h]
  split
  · next err' d' hd' => simp [hd] at hd'
  · next a' d' hd' =>
      obtain ⟨ha, rfl⟩ := Prod.mk.inj (hd.symm.trans hd')
      obtain rfl := Except.ok.inj ha
      split
      · next hn => simp [he] at hn
      · next e' he' =>
          obtain rfl := Option.some.inj (he.symm.trans he')
          rfl

end

end FnLang.Parse
