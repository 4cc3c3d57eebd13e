/- # FnLang.Proofs.Literal — the numbers that integer literals stand for.

A numeral is said here without the reader: digits of any scripts with underscores among them, each of
which has a digit on either side (`Grouped`), after one sign or none; it denotes the number with these
digits in base ten (`Denotes`).  The reader finds exactly the numerals (`signed?_eq_some_iff`), so an
integer literal has the value that its token's text denotes if this is in range, and the two errors
tell a number out of range from a text that is no numeral.  The number is not bounded before it is
compared with the range, so nothing wraps around.

The blanks that may surround a numeral are not all the blanks there are: the four information
separators are blanks between tokens, and spoil a numeral.
-/
import FnLang.Proofs.Completeness
import FnLang.Proofs.Layout
import FnLang.Proofs.WellFormed
import Mathlib.Data.Nat.Digits.Defs

namespace FnLang

namespace Text.Numeral

variable {c d : Char} {cs : List Char} {ds : List Nat} {n : Nat} {v : Int}

/-! ## Numerals -/

/-- Decimal digits of any scripts, and underscores with a digit directly before and directly after
them. -/
structure Grouped (cs : List Char) : Prop where
  ne_nil : cs ≠ []
  mem : ∀ c ∈ cs, isDecimal c = true ∨ c = '_'
  between : ∀ before after, cs = before ++ '_' :: after →
    (∃ d ∈ before.getLast?, isDecimal d = true) ∧ ∃ d ∈ after.head?, isDecimal d = true

/-- The values of the digits among some characters. -/
def digitValues (cs : List Char) : List Nat :=
  cs.filterMap decimalValue?

/-- The characters are digits of `n` in base ten, and not too many. -/
structure DigitsOf (cs : List Char) (n : Nat) : Prop where
  grouped : Grouped cs
  length_le : (digitValues cs).length ≤ 4300
  eq_ofDigits : n = Nat.ofDigits 10 (digitValues cs).reverse

/-- The characters are a numeral: digits, after one sign or none. -/
inductive Denotes : List Char → Int → Prop
  | unsigned {cs : List Char} {n : Nat} : DigitsOf cs n → Denotes cs n
  | plus {cs : List Char} {n : Nat} : DigitsOf cs n → Denotes ('+' :: cs) n
  | minus {cs : List Char} {n : Nat} : DigitsOf cs n → Denotes ('-' :: cs) (-n)

/-! ## Digits and underscores -/

theorem ne_underscore_of_isDecimal (h : isDecimal c = true) : c ≠ '_' := by
  rintro rfl
  exact absurd h (by decide)

/-- There is no digit before the first character, so it is no underscore. -/
theorem Grouped.head (h : Grouped (c :: cs)) : isDecimal c = true := by
  rcases h.mem c (by simp) with hc | rfl
  · exact hc
  · obtain ⟨⟨d, hd, -⟩, -⟩ := h.between [] cs rfl
    simp at hd

theorem grouped_singleton : Grouped [c] ↔ isDecimal c = true := by
  refine ⟨Grouped.head, fun h => ⟨by simp, by simp [h], fun before after heq => ?_⟩⟩
  have hmem : '_' ∈ [c] := by rw [heq]; simp
  exact absurd (List.mem_singleton.1 hmem).symm (ne_underscore_of_isDecimal h)

theorem grouped_cons (hd : d ≠ '_') :
    Grouped (c :: d :: cs) ↔ isDecimal c = true ∧ Grouped (d :: cs) := by
  constructor
  · intro h
    refine ⟨h.head, by simp, fun x hx => h.mem x (List.mem_cons_of_mem c hx), ?_⟩
    intro before after heq
    cases before with
    | nil => exact absurd (List.cons.inj heq).1 hd
    | cons b before =>
        obtain ⟨hlast, hnext⟩ := h.between (c :: b :: before) after (by rw [heq]; rfl)
        rw [List.getLast?_cons_cons] at hlast
        exact ⟨hlast, hnext⟩
  · rintro ⟨hc, h⟩
    refine ⟨by simp, List.forall_mem_cons.2 ⟨.inl hc, h.mem⟩, fun before after heq => ?_⟩
    cases before with
    | nil => exact absurd (List.cons.inj heq).1 (ne_underscore_of_isDecimal hc)
    | cons b before =>
        obtain ⟨hlast, hnext⟩ := h.between before after (List.cons.inj heq).2
        refine ⟨?_, hnext⟩
        cases before with
        | nil => simp at hlast
        | cons b before => rwa [List.getLast?_cons_cons]

theorem grouped_underscore :
    Grouped (c :: '_' :: cs) ↔ isDecimal c = true ∧ Grouped cs := by
  constructor
  · intro h
    obtain ⟨-, ⟨e, he, -⟩⟩ := h.between [c] cs rfl
    refine ⟨h.head, by rintro rfl; simp at he, fun x hx => h.mem x (by simp [hx]), ?_⟩
    intro before after heq
    obtain ⟨hlast, hnext⟩ := h.between (c :: '_' :: before) after (by rw [heq]; rfl)
    refine ⟨?_, hnext⟩
    rw [List.getLast?_cons_cons] at hlast
    cases before with
    | nil =>
        -- a second underscore would come directly after the first
        obtain ⟨x, hx, hdecimal⟩ := hlast
        obtain rfl : '_' = x := Option.some.inj hx
        exact absurd hdecimal (by decide)
    | cons b before => rwa [List.getLast?_cons_cons] at hlast
  · rintro ⟨hc, h⟩
    refine ⟨by simp, ?_, fun before after heq => ?_⟩
    · exact List.forall_mem_cons.2 ⟨.inl hc, List.forall_mem_cons.2 ⟨.inr rfl, h.mem⟩⟩
    · match before with
      | [] => exact absurd (List.cons.inj heq).1 (ne_underscore_of_isDecimal hc)
      | [b] =>
          obtain ⟨rfl, htail⟩ := List.cons.inj heq
          obtain rfl := (List.cons.inj htail).2
          obtain ⟨e, es, rfl⟩ := List.exists_cons_of_ne_nil h.ne_nil
          exact ⟨⟨c, rfl, hc⟩, e, rfl, h.head⟩
      | b :: b' :: before =>
          have htail := (List.cons.inj (List.cons.inj heq).2).2
          obtain ⟨hlast, hnext⟩ := h.between before after htail
          refine ⟨?_, hnext⟩
          cases before with
          | nil => simp at hlast
          | cons e before => rwa [List.getLast?_cons_cons, List.getLast?_cons_cons]

/-! ## The reader -/

/-- A digit in front of digits that are read. -/
theorem digits?_step (ih : ∀ {ds : List Nat}, digits? cs = some ds ↔ Grouped cs ∧ ds = digitValues cs) :
    (do let d ← decimalValue? c; let ds ← digits? cs; return d :: ds) = some ds ↔
      (isDecimal c = true ∧ Grouped cs) ∧ ds = digitValues (c :: cs) := by
  cases hc : decimalValue? c with
  | none => simp [isDecimal, hc]
  | some d =>
      have hvalues : digitValues (c :: cs) = d :: digitValues cs := List.filterMap_cons_some hc
      have hdecimal : isDecimal c = true := by rw [isDecimal, hc]; rfl
      rw [hvalues]
      show (digits? cs).bind (fun ds => some (d :: ds)) = some ds ↔ _
      rw [Option.bind_eq_some_iff]
      constructor
      · rintro ⟨es, hes, heq⟩
        obtain ⟨hgrouped, rfl⟩ := ih.1 hes
        exact ⟨⟨hdecimal, hgrouped⟩, (Option.some.inj heq).symm⟩
      · rintro ⟨⟨-, hgrouped⟩, rfl⟩
        exact ⟨_, ih.2 ⟨hgrouped, rfl⟩, rfl⟩

theorem digits?_eq_some_iff :
    digits? cs = some ds ↔ Grouped cs ∧ ds = digitValues cs := by
  fun_induction digits? cs generalizing ds with
  | case1 =>
      have hnil : ¬ Grouped [] := fun h => h.ne_nil rfl
      simp [hnil]
  | case2 c =>
      rw [grouped_singleton, digitValues, isDecimal]
      cases hc : decimalValue? c with
      | none => simp
      | some d => simp [hc, eq_comm]
  | case3 c cs ih =>
      rw [digits?_step ih, grouped_underscore]
      have hvalues : digitValues (c :: '_' :: cs) = digitValues (c :: cs) := by
        cases hc : decimalValue? c <;> rfl
      rw [hvalues]
  | case4 c cs hne hother ih =>
      obtain ⟨d, rest, rfl⟩ := List.exists_cons_of_ne_nil hne
      rw [digits?_step ih, grouped_cons]
      rintro rfl
      exact hother rest rfl

theorem value_eq_ofDigits (ds : List Nat) : value ds = Nat.ofDigits 10 ds.reverse := by
  rw [Nat.ofDigits_eq_foldr, List.foldr_reverse, value]
  congr 1
  funext n d
  exact Nat.add_comm _ _

theorem unsigned?_eq_some_iff : unsigned? cs = some n ↔ DigitsOf cs n := by
  show (digits? cs).bind (fun ds => if ds.length ≤ maxDigits then some (value ds) else none) = _ ↔ _
  rw [Option.bind_eq_some_iff]
  constructor
  · rintro ⟨ds, hds, hn⟩
    obtain ⟨hgrouped, rfl⟩ := digits?_eq_some_iff.1 hds
    split at hn
    · next hlength => exact ⟨hgrouped, hlength, by rw [← value_eq_ofDigits, Option.some.inj hn]⟩
    · simp at hn
  · rintro ⟨hgrouped, hlength, rfl⟩
    refine ⟨_, digits?_eq_some_iff.2 ⟨hgrouped, rfl⟩, ?_⟩
    rw [if_pos (show _ ≤ maxDigits from hlength), value_eq_ofDigits]

/-- What becomes of the number that digits are read as. -/
theorem map_unsigned?_eq_some_iff {f : Int → Int} :
    Option.map f (unsigned? cs) = some v ↔ ∃ n : Nat, DigitsOf cs n ∧ f n = v := by
  show ((unsigned? cs).bind fun n => some (n : Int)).map f = some v ↔ _
  rw [Option.map_bind, Option.bind_eq_some_iff]
  constructor
  · rintro ⟨n, hn, hv⟩
    exact ⟨n, unsigned?_eq_some_iff.1 hn, Option.some.inj hv⟩
  · rintro ⟨n, hn, rfl⟩
    exact ⟨n, unsigned?_eq_some_iff.2 hn, rfl⟩

/-- No sign is a digit, so a sign at the front is the sign of the numeral. -/
theorem signed?_eq_some_iff : signed? cs = some v ↔ Denotes cs v := by
  have nosign {c : Char} {rest : List Char} {n : Nat} (h : DigitsOf (c :: rest) n)
      (hc : isDecimal c = false) : False := by
    rw [h.grouped.head] at hc
    exact Bool.noConfusion hc
  unfold signed?
  split
  · next rest =>
      rw [map_unsigned?_eq_some_iff]
      constructor
      · rintro ⟨n, hn, rfl⟩
        exact .minus hn
      · intro h
        cases h with
        | unsigned hn => exact (nosign hn rfl).elim
        | minus hn => exact ⟨_, hn, rfl⟩
  · next rest =>
      rw [map_unsigned?_eq_some_iff]
      constructor
      · rintro ⟨n, hn, rfl⟩
        exact .plus hn
      · intro h
        cases h with
        | unsigned hn => exact (nosign hn rfl).elim
        | plus hn => exact ⟨_, hn, rfl⟩
  · next hminus hplus =>
      rw [map_unsigned?_eq_some_iff]
      constructor
      · rintro ⟨n, hn, rfl⟩
        exact .unsigned hn
      · intro h
        cases h with
        | unsigned hn => exact ⟨_, hn, rfl⟩
        | plus => exact absurd rfl (hplus _)
        | minus => exact absurd rfl (hminus _)

/-- What the value of a literal is, or why it has none, in terms of what its text denotes. -/
theorem readLiteral_cases (s : String) :
    (∃ v, Denotes (trimBy isSurround s.toList) v ∧ minLiteral ≤ v ∧ v ≤ maxLiteral ∧
        readLiteral s = .ok v) ∨
      (∃ v, Denotes (trimBy isSurround s.toList) v ∧ ¬ (minLiteral ≤ v ∧ v ≤ maxLiteral) ∧
        readLiteral s = .error .outOfRange) ∨
      (¬ ∃ v, Denotes (trimBy isSurround s.toList) v) ∧ readLiteral s = .error .malformed := by
  unfold readLiteral
  cases hread : read? s with
  | none =>
      refine .inr (.inr ⟨?_, rfl⟩)
      rintro ⟨v, hv⟩
      rw [read?, signed?_eq_some_iff.2 hv] at hread
      exact absurd hread (by simp)
  | some v =>
      have hv : Denotes (trimBy isSurround s.toList) v := signed?_eq_some_iff.1 hread
      by_cases hrange : minLiteral ≤ v ∧ v ≤ maxLiteral
      · exact .inl ⟨v, hv, hrange.1, hrange.2, if_pos hrange⟩
      · exact .inr (.inl ⟨v, hv, hrange, if_neg hrange⟩)

/-- A text denotes one number at most. -/
theorem Denotes.unique {v w : Int} (hv : Denotes cs v) (hw : Denotes cs w) : v = w :=
  Option.some.inj ((signed?_eq_some_iff.2 hv).symm.trans (signed?_eq_some_iff.2 hw))

end Text.Numeral

/-! ## Integer tokens -/

open Text Numeral

/-- A token that the lexer makes of digits denotes no negative number. -/
theorem Token.Spelt.nonneg_of_denotes {t : Token} (h : t.Spelt) (hk : t.kind = .int) {v : Int}
    (hv : Denotes (trimBy isSurround t.text.toList) v) : 0 ≤ v := by
  generalize htrim : trimBy isSurround t.text.toList = cs at hv
  cases hv with
  | unsigned | plus => exact Int.natCast_nonneg _
  | minus =>
      have hmem : '-' ∈ t.text.toList := mem_of_mem_trimBy (by rw [htrim]; simp)
      have hdigit := h.digits hk '-' hmem
      exact absurd hdigit (by decide)

/-- A canonical numeral is one token. -/
theorem tokenize_write (n : Nat) :
    ∃ t e, tokenize (write n) = [t, e] ∧ t.kind = .int ∧ t.text = write n ∧ e.kind = .eof := by
  have hspells : Spells (Nat.toDigits 10 n ++ []) fun ts =>
      ∃ t : Token, ts = [t] ∧ t.kind = .int ∧ t.text = write n :=
    .number n ends_nil fun t hkind htext => .nil ⟨t, rfl, hkind, htext⟩
  obtain ⟨ts, l, hpending, t, rfl, hkind, htext⟩ := hspells {} [] ends_nil
  have hsource : TokenSource.text ⟨Nat.toDigits 10 n ++ [] ++ [], {}⟩ = .ofText (write n) := by
    show TokenSource.text _ = .text ⟨(String.ofList (Nat.toDigits 10 n)).toList, {}⟩
    rw [String.toList_ofList, List.append_nil, List.append_nil]
  rw [TokenSource.pending_nil, hsource] at hpending
  refine ⟨t, (TokenSource.ofText (write n)).final, ?_, hkind, htext, TokenSource.kind_final _⟩
  rw [tokenize, TokenSource.tokens_eq]
  show (TokenSource.ofText (write n)).pending ++ _ = _
  rw [hpending]
  rfl

/-- An integer token of a text denotes no negative number. -/
theorem nonneg_of_mem_tokens {i : Input} {t : Token} (ht : t ∈ i.tokens) (hk : t.kind = .int)
    {v : Int} (hv : Denotes (trimBy isSurround t.text.toList) v) : 0 ≤ v := by
  rw [TokenSource.tokens_eq] at ht
  rcases List.mem_append.1 ht with ht | ht
  · exact (TokenSource.spelt_of_mem_pending ht).nonneg_of_denotes hk hv
  · obtain rfl := List.mem_singleton.1 ht
    rw [TokenSource.kind_final] at hk
    exact Kind.noConfusion hk

/-! ## The parser of integer literals -/

namespace Parse

/-- The current token is read as an integer literal, or is found out of range, or is no numeral.  The
cursor stays where it is in any case. -/
theorem run_integerLiteral_cases (c : Cursor) :
    (∃ v, Denotes (trimBy isSurround c.current.text.toList) v ∧ (-2 ^ 31 ≤ v ∧ v ≤ 2 ^ 31 - 1) ∧
        integerLiteral.run c = (.ok (.integer v), c)) ∨
      (∃ v, Denotes (trimBy isSurround c.current.text.toList) v ∧ ¬ (-2 ^ 31 ≤ v ∧ v ≤ 2 ^ 31 - 1) ∧
        integerLiteral.run c =
          (.error ⟨.integerOutOfRange c.current.text, some c.current⟩, c)) ∨
      (¬ ∃ v, Denotes (trimBy isSurround c.current.text.toList) v) ∧
        integerLiteral.run c = (.error ⟨.malformedInteger c.current.text, some c.current⟩, c) := by
  have hrun : integerLiteral.run c = _ := run_bind_ok _ (run_current c)
  rw [hrun]
  rcases readLiteral_cases c.current.text with ⟨v, hv, hmin, hmax, hread⟩ | ⟨v, hv, hrange, hread⟩ |
    ⟨hnone, hread⟩
  · exact .inl ⟨v, hv, ⟨hmin, hmax⟩, by simp only [hread]; rfl⟩
  · exact .inr (.inl ⟨v, hv, hrange, by simp only [hread]; rfl⟩)
  · exact .inr (.inr ⟨hnone, by simp only [hread]; rfl⟩)

theorem integerLiteral_stays (c : Cursor) : (integerLiteral.run c).2 = c := by
  rcases run_integerLiteral_cases c with ⟨v, -, -, hrun⟩ | ⟨v, -, -, hrun⟩ | ⟨-, hrun⟩ <;> rw [hrun]

theorem integerLiteral_eq_ok_iff {c : Cursor} {a : Node} :
    (integerLiteral.run c).1 = .ok a ↔
      ∃ v, Denotes (trimBy isSurround c.current.text.toList) v ∧ (-2 ^ 31 ≤ v ∧ v ≤ 2 ^ 31 - 1) ∧
        a = .integer v := by
  rcases run_integerLiteral_cases c with ⟨v, hv, hrange, hrun⟩ | ⟨v, hv, hrange, hrun⟩ |
    ⟨hnone, hrun⟩
  all_goals rw [hrun]
  · refine ⟨fun ha => ⟨v, hv, hrange, (Except.ok.inj ha).symm⟩, ?_⟩
    rintro ⟨w, hw, -, rfl⟩
    rw [hv.unique hw]
  · refine ⟨nofun, ?_⟩
    rintro ⟨w, hw, hin, -⟩
    exact absurd (hw.unique hv ▸ hin) hrange
  · refine ⟨nofun, ?_⟩
    rintro ⟨w, hw, -, -⟩
    exact absurd ⟨w, hw⟩ hnone

theorem integerLiteral_eq_error_iff {c : Cursor} {e : ParseError} :
    (integerLiteral.run c).1 = .error e ↔
      (∃ v, Denotes (trimBy isSurround c.current.text.toList) v ∧
          ¬ (-2 ^ 31 ≤ v ∧ v ≤ 2 ^ 31 - 1)) ∧
        e = ⟨.integerOutOfRange c.current.text, some c.current⟩ ∨
      (¬ ∃ v, Denotes (trimBy isSurround c.current.text.toList) v) ∧
        e = ⟨.malformedInteger c.current.text, some c.current⟩ := by
  rcases run_integerLiteral_cases c with ⟨v, hv, hrange, hrun⟩ | ⟨v, hv, hrange, hrun⟩ |
    ⟨hnone, hrun⟩
  all_goals rw [hrun]
  · refine ⟨nofun, ?_⟩
    rintro (⟨⟨w, hw, hout⟩, -⟩ | ⟨hnone, -⟩)
    · exact absurd (hv.unique hw ▸ hrange) hout
    · exact absurd ⟨v, hv⟩ hnone
  · refine ⟨fun he => .inl ⟨⟨v, hv, hrange⟩, (Except.error.inj he).symm⟩, ?_⟩
    rintro (⟨-, rfl⟩ | ⟨hnone, -⟩)
    · rfl
    · exact absurd ⟨v, hv⟩ hnone
  · refine ⟨fun he => .inr ⟨hnone, (Except.error.inj he).symm⟩, ?_⟩
    rintro (⟨⟨w, hw, -⟩, -⟩ | ⟨-, rfl⟩)
    · exact absurd ⟨w, hw⟩ hnone
    · rfl

/-- A number that is no less than zero is read again from the token that its numeral is. -/
theorem exists_tokenize_write {v : Int} (h : 0 ≤ v) (hv : v ≤ 2 ^ 31 - 1) :
    ∃ t e, tokenize (write v) = [t, e] ∧ t.kind = .int ∧ e.kind = .eof ∧
      ∀ c : Cursor, c.current = t → integerLiteral.run c = (.ok (.integer v), c) := by
  obtain ⟨n, rfl⟩ := Int.eq_ofNat_of_zero_le h
  obtain ⟨t, e, htokens, hk, htext, hend⟩ := tokenize_write n
  refine ⟨t, e, htokens, hk, hend, ?_⟩
  rintro c rfl
  exact run_integerLiteral_of_ok (by rw [htext]; exact readLiteral_write h hv)

end Parse

/-- An integer literal has the value that its token's text denotes, if this is a signed 32-bit number.
Blanks at the two ends of the text do not matter, unless they are information separators.  The error
tells a number out of range from a text that denotes none, and the cursor stays where it is.  No
integer token of a text denotes a negative number, and the canonical numeral of any other signed
32-bit number is a single token, which is read as that number. -/
theorem integerLiteral_value :
    (∀ c : Cursor,
      (Parse.integerLiteral.run c).2 = c ∧
      (∀ a, (Parse.integerLiteral.run c).1 = .ok a ↔
        ∃ v, Denotes (trimBy isSurround c.current.text.toList) v ∧ (-2 ^ 31 ≤ v ∧ v ≤ 2 ^ 31 - 1) ∧
          a = .integer v) ∧
      ∀ e, (Parse.integerLiteral.run c).1 = .error e ↔
        (∃ v, Denotes (trimBy isSurround c.current.text.toList) v ∧
            ¬ (-2 ^ 31 ≤ v ∧ v ≤ 2 ^ 31 - 1)) ∧
          e = ⟨.integerOutOfRange c.current.text, some c.current⟩ ∨
        (¬ ∃ v, Denotes (trimBy isSurround c.current.text.toList) v) ∧
          e = ⟨.malformedInteger c.current.text, some c.current⟩) ∧
    (∀ (i : Input) (t : Token) (v : Int), t ∈ i.tokens → t.kind = .int →
      Denotes (trimBy isSurround t.text.toList) v → 0 ≤ v) ∧
    ∀ v : Int, 0 ≤ v → v ≤ 2 ^ 31 - 1 →
      ∃ t e, tokenize (write v) = [t, e] ∧ t.kind = .int ∧ e.kind = .eof ∧
        ∀ c : Cursor, c.current = t → Parse.integerLiteral.run c = (.ok (.integer v), c) := by
  refine ⟨fun c => ⟨Parse.integerLiteral_stays c, ?_, ?_⟩, ?_, ?_⟩
  · exact fun _ => Parse.integerLiteral_eq_ok_iff
  · exact fun _ => Parse.integerLiteral_eq_error_iff
  · exact fun _ _ _ ht hk hv => nonneg_of_mem_tokens ht hk hv
  · exact fun _ h hv => Parse.exists_tokenize_write h hv

/-- A numeral with a sign, an underscore and digits of two scripts, the first number out of range, a
text that is no numeral, leading zeros, and a number that is written and read again. -/
theorem integerLiteral_value_examples :
    let reading (text : String) : Cursor :=
      { source := .ofList [], current := ⟨.int, text, 0, 0⟩, lookahead := Token.ending, depth := 1 }
    Parse.integerLiteral.run (reading " -1_\u0660 ") = (.ok (.integer (-10)), reading " -1_\u0660 ") ∧
      (Parse.integerLiteral.run (reading "2147483648")).1 =
        .error ⟨.integerOutOfRange "2147483648", some (reading "2147483648").current⟩ ∧
      (Parse.integerLiteral.run (reading "1__0")).1 =
        .error ⟨.malformedInteger "1__0", some (reading "1__0").current⟩ ∧
      (∀ v : Int, Denotes ['0', '0', '7'] v → 0 ≤ v) ∧
      ∃ t e, tokenize (write 120) = [t, e] ∧
        ∀ c : Cursor, c.current = t → Parse.integerLiteral.run c = (.ok (.integer 120), c) := by
  intro reading
  obtain ⟨hrun, hnonneg, hwrite⟩ := integerLiteral_value
  refine ⟨Prod.ext ?_ (hrun _).1, ?_, ?_, fun v hv => ?_, ?_⟩
  · exact ((hrun _).2.1 _).2 ⟨-10, signed?_eq_some_iff.1 (by decide +kernel), by decide, rfl⟩
  · exact ((hrun _).2.2 _).2 (.inl ⟨⟨2147483648, signed?_eq_some_iff.1 (by decide +kernel),
      by decide⟩, rfl⟩)
  · refine ((hrun _).2.2 _).2 (.inr ⟨?_, rfl⟩)
    rintro ⟨v, hv⟩
    have hnone : signed? (trimBy isSurround "1__0".toList) = none := by decide +kernel
    exact Option.some_ne_none v ((signed?_eq_some_iff.2 hv).symm.trans hnone)
  · exact hnonneg (.ofSource "007") ⟨.int, "007", 1, 1⟩ v (by decide +kernel) rfl hv
  · obtain ⟨t, e, htokens, -, -, hread⟩ := hwrite 120 (by decide) (by decide)
    exact ⟨t, e, htokens, hread⟩

/-- An information separator in front of a digit spoils the numeral, although it is a blank and is
passed over between tokens. -/
theorem separator_spoils_numeral :
    let t : Token := ⟨.int, "\x1c7", 0, 0⟩
    let c : Cursor :=
      { source := .ofList [], current := t, lookahead := Token.ending, depth := 0 }
    Denotes (trimBy isBlank t.text.toList) 7 ∧
      (Parse.integerLiteral.run c).1 = .error ⟨.malformedInteger t.text, some t⟩ := by
  intro t c
  exact ⟨signed?_eq_some_iff.1 (by decide +kernel), by decide +kernel⟩

end FnLang
