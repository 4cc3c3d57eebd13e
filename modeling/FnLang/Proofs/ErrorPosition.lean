/- # FnLang.Proofs.ErrorPosition — an error is found on the first token that cannot go on.

Where a statement fails, the tokens before the one that the error carries can still be continued to a
program without errors, and with that token they cannot.  The first half is the completion of a
breakdown (`Breaks.completes`).  The second is that the parser is not influenced by what it has not
seen: up to the token it would break off in the same way whatever came after it, also with a larger
limit on nesting (`Breaks.not_derives`).

A block that the input ends in is reported on its opening brace and not on the end of input.  That
brace is the last one that is not closed (`Breaks.onLastOpen`).
-/
import FnLang.Proofs.Completion
import FnLang.Proofs.View

namespace FnLang

open Parse

/-! ## Acceptance -/

/-- The parser, with expressions at most `n` deep inside one another, reads the tokens without an
error. -/
def Accepts (n : Nat) (ts : List Token) : Prop :=
  ∃ ss, (Cursor.start (.ofList ts)).Reads n ss

/-- With more tokens after them, the tokens are read without an error for some limit on nesting. -/
def Completable (ts : List Token) : Prop :=
  ∃ n ws, Accepts n (ts ++ ws)

theorem accepts_nestingLimit_iff {ts : List Token} :
    Accepts nestingLimit ts ↔ (parseTokens ts).errors = [] := by
  constructor
  · rintro ⟨ss, h⟩
    exact ParseResult.errors_of_outcomes_eq (Cursor.reads_iff_outcomes.1 h)
  · intro h
    exact ⟨_, Cursor.reads_iff_outcomes.2 (ParseResult.outcomes_eq_of_errors_eq_nil h)⟩

/-- Acceptance is a derivation of the tokens before the first end of input. -/
theorem accepts_iff_derives {n : Nat} {ts : List Token} :
    Accepts n ts ↔ ∃ ss, Derives n (.statements ss) (ts.takeWhile (·.kind ≠ .eof)) := by
  unfold Accepts
  simp only [Cursor.reads_iff_derives, Cursor.upcoming_start, TokenSource.pending_ofList_eq]

/-- What can be finished to a statement can be continued to a program: that statement. -/
theorem Finishes.completable {n : Nat} {x : List Token} (h : Finishes n .statement x) :
    Completable x := by
  obtain ⟨m, ws, y, s, -, hd⟩ := h
  refine ⟨m, ws, [s], Cursor.reads_iff_derives.2 ?_⟩
  rw [upcoming_start_ofList (hd.kind_ne_of_not_mem (by decide))]
  exact hd.single

/-! ## The token that cannot be taken -/

namespace Breaks

variable {n m : Nat} {g : Goal} {x : List Token} {h : Halt}

/-- Where a statement breaks off on a token, no program goes on with that token.  The parser with a
limit large enough for both would read the first statement of the program, and break off in it. -/
theorem not_derives (hb : Breaks n .statement x h) (hcause : h.error.cause ≠ .nestedTooDeeply)
    (honto : h.onto = true → h.token.kind ≠ .eof) {ts rest : List Token} {z : Token}
    (hz : z.kind = .eof) (heq : ts ++ [z] = x ++ h.token :: rest) (ss : List Node) :
    ¬ Derives m (.statements ss) ts := by
  intro hd
  have hts : ∀ t ∈ ts, t.kind ≠ .eof := hd.kind_ne_of_not_mem (by decide)
  have hx := hb.ne_nil_or_onto trivial
  let c := Cursor.start (.ofList (ts ++ [z]))
  have hup : c.upcoming = ts := by
    rw [upcoming_start_append hts, Cursor.upcoming_eq_nil_iff.2 hz, List.append_nil]
  have hfinal : c.final = z := by
    rw [final_start_append hts]
    exact if_pos hz
  have hreads : c.Reads (max m n) ss := by
    apply Cursor.reads_iff_derives.2
    rw [hup]
    exact hd.mono (Nat.le_max_left m n)
  cases hreads with
  | done hnone =>
      -- the end of input is all there is, and no statement stops on that
      rw [← hup, Cursor.upcoming_eq_nil_iff.2 (Cursor.advance?_eq_none_iff.1 hnone)] at heq
      cases x with
      | nil =>
          obtain ⟨rfl, -⟩ := List.cons.inj heq
          exact honto (hx.resolve_left (by simp)) hz
      | cons u us => simp at heq
  | @next _ d _ _ _ hadvance hrun _ =>
      rw [← hup, Cursor.upcoming_of_advance? hadvance, ← hfinal,
        ← Cursor.final_of_advance? hadvance] at heq
      -- the run has to read a statement from the very tokens in which reading breaks off
      obtain ⟨f, hr⟩ := Cursor.exists_reached heq hx honto
      rw [(hb.mono hcause (Nat.le_max_right m n)).broken hr] at hrun
      simp at hrun

/-- What is taken cannot go on with the token that is not taken. -/
theorem not_completable (hb : Breaks n .statement x h) (hcause : h.error.cause ≠ .nestedTooDeeply)
    (hlisted : ∀ t ∈ x ++ [h.token], t.kind ≠ .eof) : ¬ Completable (x ++ [h.token]) := by
  rintro ⟨m, ws, haccepts⟩
  obtain ⟨ss, hd⟩ := accepts_iff_derives.1 haccepts
  rw [List.takeWhile_append_of_pos (by simpa using hlisted)] at hd
  have heq : (x ++ [h.token] ++ ws.takeWhile (·.kind ≠ .eof)) ++ [Token.ending] =
      x ++ h.token :: (ws.takeWhile (·.kind ≠ .eof) ++ [Token.ending]) := by simp
  exact hb.not_derives hcause (fun _ => hlisted _ (by simp)) rfl heq ss hd

/-- What is taken up to the end of input is no program. -/
theorem not_accepts (hb : Breaks n .statement x h) (hcause : h.error.cause ≠ .nestedTooDeeply)
    (honto : h.onto = true → h.token.kind ≠ .eof) (ht : h.token.kind = .eof)
    (hlisted : ∀ t ∈ x, t.kind ≠ .eof) : ¬ Accepts m x := by
  rintro ⟨ss, hreads⟩
  have hd := hreads.derives
  rw [upcoming_start_ofList hlisted] at hd
  exact hb.not_derives hcause honto ht rfl ss hd

/-! ## The token that is carried -/

theorem error_token (hb : Breaks n g x h) :
    h.error.cause = .unclosedBlock ∨ h.error.token = some h.token := by
  induction hb with
  | token | missing | nested | noOperand | malformed | outOfRange | unclosed => exact .inr rfl
  | unfinished => exact .inl rfl
  | block _ _ ih => exact ih
  | _ => assumption

theorem kind_token_of_unclosedBlock (hb : Breaks n g x h) :
    h.error.cause = .unclosedBlock → h.token.kind = .eof := by
  induction hb with
  | unfinished ht => exact fun _ => ht
  | block _ _ ih => exact ih
  | token | missing | noOperand | malformed | outOfRange | unclosed | nested => exact nofun
  | _ => assumption

end Breaks

/-- The error carries the last brace among the tokens that is not closed. -/
def Halt.OnLastOpen (h : Halt) (ts : List Token) : Prop :=
  ∃ us lb vs, ts = us ++ lb :: vs ∧ h.error.token = some lb ∧ lb.kind = .lbrace ∧ Balanced vs

namespace Halt.OnLastOpen

variable {h : Halt} {ts : List Token}

theorem append (ho : h.OnLastOpen ts) (us : List Token) : h.OnLastOpen (us ++ ts) := by
  obtain ⟨vs, lb, ws, rfl, hlb, hk, hws⟩ := ho
  exact ⟨us ++ vs, lb, ws, by rw [List.append_assoc], hlb, hk, hws⟩

theorem cons (ho : h.OnLastOpen ts) (u : Token) : h.OnLastOpen (u :: ts) :=
  ho.append [u]

end Halt.OnLastOpen

/-- The braces that a goal is read after. -/
def Goal.opened : Goal → List Token
  | .statements lb => [lb]
  | _ => []

/-- An input that ends in a block is reported on the last brace that is not closed.  The induction
carries the brace of the block whose statements are read: it is the last one as long as they are
complete. -/
theorem Breaks.onLastOpen {n : Nat} {g : Goal} {x : List Token} {h : Halt} (hb : Breaks n g x h)
    (hcause : h.error.cause = .unclosedBlock) (hopened : ∀ lb ∈ g.opened, lb.kind = .lbrace) :
    h.OnLastOpen (g.opened ++ x) := by
  have none : ∀ lb ∈ ([] : List Token), lb.kind = .lbrace := by simp
  induction hb with
  | token | missing | nested | noOperand | malformed | outOfRange | unclosed => nomatch hcause
  | next _ ih | parameter _ ih | argument _ ih | noBody _ ih | body _ ih | bare _ _ _ ih =>
      exact ih hcause none
  | unary _ _ ih | group _ _ ih | noCondition _ _ ih | noParameters _ _ ih | parameters _ _ ih
  | firstItem _ _ _ ih | noName _ _ ih | returning _ _ ih | statement _ _ ih =>
      exact (ih hcause none).cons _
  | condition _ _ _ ih | noAssign _ _ _ ih => exact ((ih hcause none).cons _).cons _
  | binding _ _ _ _ ih => exact (((ih hcause none).cons _).cons _).cons _
  | openCondition _ _ _ _ _ ih => exact (((ih hcause none).append _).cons _).cons _
  | consequence _ _ _ _ _ ih => exact ((((ih hcause none).cons _).append _).cons _).cons _
  | alternative _ _ _ _ _ _ _ ih =>
      exact ((((((ih hcause none).cons _).append _).cons _).append _).cons _).cons _
  | function _ _ _ ih => exact ((ih hcause none).append _).cons _
  | right _ _ _ _ ih | nextItem _ _ _ ih => exact ((ih hcause none).cons _).append _
  | arguments _ _ _ ih | openItems _ _ _ _ ih => exact (ih hcause none).append _
  | block hlb _ ih => exact ih hcause (by simpa [Goal.opened] using hlb)
  | @unfinished n lb t ht => exact ⟨[], lb, [], rfl, rfl, hopened lb (by simp [Goal.opened]), .nil⟩
  | @laterStatement n lb y s us x h hs _ _ ih =>
      obtain ⟨vs, brace, ws, heq, hbrace, hk, hws⟩ := ih hcause hopened
      cases vs with
      | nil =>
          -- the brace of the block itself: the statement in front is balanced
          obtain ⟨rfl, rfl⟩ := List.cons.inj heq
          exact ⟨[], lb, us ++ x, rfl, hbrace, hk, hs.balanced.append hws⟩
      | cons v vs =>
          obtain ⟨-, rfl⟩ := List.cons.inj heq
          have hrest : h.OnLastOpen (vs ++ brace :: ws) := ⟨vs, brace, ws, rfl, hbrace, hk, hws⟩
          exact (hrest.append us).cons lb

/-! ## Failed statements -/

/-- The tokens from the one that an error is found on: the one under the cursor, or the next one. -/
def ParseError.left (e : ParseError) (d : Cursor) : List Token :=
  if e.cause.isAhead then d.upcoming else d.current :: d.upcoming

/-- Where reading breaks off, what is taken is followed by the token that is not, or by the end. -/
theorem Breaks.tokens_eq {n : Nat} {g : Goal} {x : List Token} {h : Halt} {c f : Cursor}
    (hb : Breaks n g x h) (hr : h.Reached c x f) :
    c.current :: c.upcoming = x ++ h.error.left f ∧
      (h.error.left f).head?.getD c.final = h.token := by
  unfold ParseError.left
  rw [hb.isAhead_eq]
  unfold Halt.Reached at hr
  cases ho : h.onto with
  | true =>
      rw [if_pos ho] at hr
      have hcurrent := hr.last_eq
      refine ⟨?_, hcurrent⟩
      rw [hr.tokens_eq, List.append_assoc, ← hcurrent]
      rfl
  | false =>
      rw [if_neg (by simp [ho])] at hr
      obtain ⟨hspan, hahead⟩ := hr
      refine ⟨hspan.tokens_eq, ?_⟩
      rw [← hahead, f.lookahead_eq_getD, hspan.final_eq]
      rfl

namespace Breaks

variable {n : Nat} {x : List Token} {h : Halt} {c f : Cursor}

/-- The error carries the token after what is taken, and with that token no program goes on. -/
theorem stuck (hb : Breaks n .statement x h) (hr : h.Reached c x f) (hc : c.current.kind ≠ .eof)
    (hcause : h.error.cause ≠ .nestedTooDeeply) (hblock : h.error.cause ≠ .unclosedBlock) :
    match h.error.left f with
    | [] => h.error.token = some c.final ∧ ∀ m, ¬ Accepts m x
    | t :: _ => h.error.token = some t ∧ ¬ Completable (x ++ [t]) := by
  have hlisted := Cursor.kind_ne_eof_of_mem hc
  have honto : h.onto = true → h.token.kind ≠ .eof := fun ho => hlisted _ (hr.token_mem ho)
  have htoken := hb.error_token.resolve_left hblock
  obtain ⟨htokens, hhead⟩ := hb.tokens_eq hr
  cases hrest : h.error.left f with
  | nil =>
      rw [hrest] at htokens hhead
      rw [List.append_nil] at htokens
      have hend : c.final = h.token := hhead
      have hkind : h.token.kind = .eof := by
        rw [← hend]
        exact c.kind_final
      refine ⟨by rw [htoken, hend], fun m => ?_⟩
      rw [htokens] at hlisted
      exact hb.not_accepts hcause honto hkind hlisted
  | cons t rest =>
      rw [hrest] at htokens hhead
      obtain rfl : t = h.token := hhead
      refine ⟨htoken, hb.not_completable hcause fun u hu => hlisted u ?_⟩
      rw [htokens, List.append_cons]
      exact List.mem_append_left rest hu

/-- Where the input ends in a block, all the tokens have been taken, and the error carries the last
brace among them that is not closed. -/
theorem unclosed_block (hb : Breaks n .statement x h) (hr : h.Reached c x f)
    (hc : c.current.kind ≠ .eof) (hcause : h.error.cause = .unclosedBlock) :
    f.upcoming = [] ∧ c.current :: c.upcoming = x ∧ h.OnLastOpen x := by
  have hkind := hb.kind_token_of_unclosedBlock hcause
  have hahead : h.error.left f = f.upcoming := by
    rw [ParseError.left, hcause]
    rfl
  obtain ⟨htokens, hhead⟩ := hb.tokens_eq hr
  rw [hahead] at htokens hhead
  have hnil : f.upcoming = [] := by
    cases hrest : f.upcoming with
    | nil => rfl
    | cons t rest =>
        rw [hrest] at htokens hhead
        obtain rfl : t = h.token := hhead
        exact absurd hkind (Cursor.kind_ne_eof_of_mem hc _ (by simp [htokens]))
  rw [hnil, List.append_nil] at htokens
  exact ⟨hnil, htokens, hb.onLastOpen hcause (by simp [Goal.opened])⟩

end Breaks

/-- An error is found on the first token that cannot go on.  The tokens of the failed statement before
that token can be continued to a program without errors.  With the token they cannot; if it is the end
of input, they are no program as they are.

An error about a block that is not closed is found at the end of input.  All the tokens of the
statement can then be continued, and the error carries the last of their opening braces that no later
brace closes: the braces after it close none that is open there (`Rising 0`). -/
theorem error_position (ts : List Token) {a : Attempt}
    (ha : a ∈ (Cursor.start (.ofList ts)).attempts) {e : ParseError} {d : Cursor}
    (hfails : a.FailsAt e d) :
    let tokens := a.start.current :: a.start.upcoming
    let ending := (ts.find? (·.kind = .eof)).getD Token.ending
    tokens <:+ ts.takeWhile (·.kind ≠ .eof) ∧
      (e.cause ≠ .nestedTooDeeply → e.cause ≠ .unclosedBlock →
        ∃ us, tokens = us ++ e.left d ∧ Completable us ∧
          match e.left d with
          | [] => e.token = some ending ∧ ∀ n, ¬ Accepts n us
          | t :: _ => e.token = some t ∧ ¬ Completable (us ++ [t])) ∧
      (e.cause = .unclosedBlock →
        d.upcoming = [] ∧ Completable tokens ∧
          ∃ us lb vs, tokens = us ++ lb :: vs ∧ e.token = some lb ∧ lb.kind = .lbrace ∧
            Rising 0 vs ∧
            ∀ us' lb' vs', vs = us' ++ lb' :: vs' → lb'.kind = .lbrace → ¬ Rising 0 vs') := by
  intro tokens ending
  have heof := (Cursor.depth_start rfl ha).2
  have hfinal : a.start.final = ending := by
    rw [Cursor.final_start_of_mem rfl ha, Cursor.final_start, TokenSource.final_ofList]
  obtain ⟨x, h, f, hb, hr, rfl, rfl⟩ := Breaks.of_run_statement heof hfails
  refine ⟨?_, fun hcause hblock => ?_, fun hcause => ?_⟩
  · have hsuffix := Cursor.start_suffix rfl ha
    rwa [Cursor.upcoming_start, TokenSource.pending_ofList_eq] at hsuffix
  · refine ⟨x, (hb.tokens_eq hr).1, (hb.completes hcause).completable, ?_⟩
    have hstuck := hb.stuck hr heof hcause hblock
    rwa [hfinal] at hstuck
  · obtain ⟨hnil, htokens, us, lb, vs, rfl, hlb, hk, hbalanced⟩ := hb.unclosed_block hr heof hcause
    have hcompletes := hb.completes (by simp [hcause])
    refine ⟨hnil, ?_, us, lb, vs, htokens, hlb, hk, hbalanced.rising, ?_⟩
    · show Completable (a.start.current :: a.start.upcoming)
      rw [htokens]
      exact hcompletes.completable
    · -- another brace that is open would leave what comes after this one unbalanced
      intro us' lb' vs' hvs hk'
      rw [hvs] at hbalanced
      exact hbalanced.not_rising hk'

/-- In `let a = 1; f(1 2); b` the error is found on the second number: `f(1` can be continued to a
program, and `f(1 2` cannot. -/
theorem error_position_secondNumber :
    let second : Token := ⟨.int, "2", 0, 0⟩
    let before : List Token := [⟨.letWord, "let", 0, 0⟩, ⟨.ident, "a", 0, 0⟩, ⟨.assign, "=", 0, 0⟩,
      ⟨.int, "1", 0, 0⟩, ⟨.semicolon, ";", 0, 0⟩, ⟨.ident, "f", 0, 0⟩, ⟨.lparen, "(", 0, 0⟩,
      ⟨.int, "1", 0, 0⟩]
    let rest : List Token := [⟨.rparen, ")", 0, 0⟩, ⟨.semicolon, ";", 0, 0⟩, ⟨.ident, "b", 0, 0⟩]
    ∃ us vs, us ++ second :: vs <:+ before ++ second :: rest ∧ Completable us ∧
      ¬ Completable (us ++ [second]) := by
  intro second before rest
  have herrors : (parseTokens (before ++ second :: rest)).errors =
      [⟨.unexpected .rparen .int, second⟩] := by decide +kernel
  have hmem : ⟨.unexpected .rparen .int, some second⟩ ∈
      (Cursor.start (.ofList (before ++ second :: rest))).parse.errors := by
    show _ ∈ (parseTokens (before ++ second :: rest)).errors
    rw [herrors]
    exact List.mem_singleton_self _
  obtain ⟨a, ha, d, hfails⟩ := Cursor.exists_failsAt hmem
  obtain ⟨hsuffix, hposition, -⟩ := error_position _ ha hfails
  obtain ⟨us, htokens, hcompletable, hstuck⟩ := hposition (by simp) (by simp)
  have hread : (before ++ second :: rest).takeWhile (·.kind ≠ .eof) = before ++ second :: rest := by
    decide
  rw [hread, htokens] at hsuffix
  generalize ParseError.left _ d = left at hsuffix hstuck
  cases left with
  | nil =>
      obtain ⟨htoken, -⟩ := hstuck
      exact absurd htoken (by decide)
  | cons t vs =>
      obtain ⟨htoken, hnot⟩ := hstuck
      obtain rfl : second = t := Option.some.inj htoken
      exact ⟨us, vs, hsuffix, hcompletable, hnot⟩

end FnLang
