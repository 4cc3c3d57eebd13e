/- # FnLang.Proofs.Soundness — what is read has a derivation.

The two relations of the theory exhaust what can happen: tokens that start with one that is no end of
input start with a phrase, up to a token that does not go on with it, or reading breaks off in them
(`Decides`).  This is about lists of tokens and mentions no parser; it is an induction on the bound
for nesting, and inside it one on the number of tokens for each loop of the language.

Since the parser reads what is derived and stops where reading breaks off, it does nothing else:
`Cursor.statement_cases` has the two cases of a statement, each with the cursor that is reached, and
`Derives.of_run_statement` and `Breaks.of_run_statement` read a run back.
-/
import FnLang.Proofs.Breakdown

namespace FnLang

open Parse

/-! ## Tokens up to the end of input -/

/-- A list of tokens that ends with an end of input and has no other one. -/
def Terminated : List Token → Prop
  | [] => False
  | t :: ts => if t.kind = .eof then ts = [] else Terminated ts

namespace Terminated

variable {t u : Token} {ts us rest : List Token}

theorem tail (h : Terminated (t :: ts)) (ht : t.kind ≠ .eof) : Terminated ts := by
  rw [Terminated, if_neg ht] at h
  exact h

theorem ne_nil (h : Terminated ts) : ts ≠ [] := by
  rintro rfl
  exact h

theorem exists_cons (h : Terminated ts) : ∃ u us, ts = u :: us ∧ Terminated (u :: us) := by
  cases ts with
  | nil => exact absurd rfl h.ne_nil
  | cons u us => exact ⟨u, us, rfl, h⟩

theorem of_append (us : List Token) (h : Terminated (us ++ u :: rest)) : Terminated (u :: rest) := by
  induction us with
  | nil => exact h
  | cons v us ih =>
      by_cases hv : v.kind = .eof
      · rw [List.cons_append, Terminated, if_pos hv] at h
        simp at h
      · exact ih (h.tail hv)

theorem append {z : Token} (h : ∀ t ∈ us, t.kind ≠ .eof) (hz : z.kind = .eof) :
    Terminated (us ++ [z]) := by
  induction us with
  | nil => rw [List.nil_append, Terminated, if_pos hz]
  | cons u us ih =>
      rw [List.cons_append, Terminated, if_neg (h u (by simp))]
      exact ih fun t ht => h t (List.mem_cons_of_mem u ht)

end Terminated

/-! ## Tighter and looser levels -/

namespace Level

/-- The place of a level in the order of tightness. -/
def rank : Level → Nat
  | equality => 6
  | comparison => 5
  | sum => 4
  | product => 3
  | unary => 2
  | application => 1
  | primary => 0

/-- The levels at which the parser reads. -/
def readable : List Level :=
  unary :: ofOperators

theorem rank_le_tighter {m l : Level} (h : m.rank ≤ l.rank) (hne : m ≠ l) :
    m.rank ≤ l.tighter.rank := by
  revert h hne
  cases m <;> cases l <;> decide

theorem rank_tighter_lt {m l : Level} (h : m.rank ≤ l.rank) (hne : m ≠ l) :
    l.tighter.rank < l.rank := by
  revert h hne
  cases m <;> cases l <;> decide

theorem tighter_mem_readable {l : Level} (h : l ∈ ofOperators) : l.tighter ∈ readable := by
  revert l
  decide

theorem unary_rank_le {l : Level} (h : l ∈ readable) : unary.rank ≤ l.rank := by
  revert l
  decide

theorem application_subset {l : Level} (h : l ∈ readable) :
    application.continuations ⊆ l.continuations := by
  revert l
  decide

/-- An operator that goes on with a level is one of that level or of a tighter one. -/
theorem rank_le_of_mem {l m : Level} {k : Kind} (h : k ∈ m.operators) (hl : k ∈ l.continuations) :
    m.rank ≤ l.rank := by
  revert k
  cases l <;> cases m <;> decide

/-- An operator that does not go on with the operands of a level is one of that level or of a looser
one. -/
theorem rank_le_of_not_mem {l m : Level} {k : Kind} (h : k ∈ m.operators)
    (hl : k ∉ l.tighter.continuations) : l.rank ≤ m.rank := by
  revert k
  cases l <;> cases m <;> decide

/-- Only after an operator is a parenthesis that follows not the start of arguments. -/
theorem rank_le_application {l : Level} (h : Kind.lparen ∉ l.tighter.continuations) :
    l.rank ≤ application.rank := by
  revert h
  cases l <;> decide

end Level

/-- An expression of a level is one of every looser level. -/
theorem Derives.loosen {n : Nat} {m l : Level} {x : Ending} {e : Node} {ts : List Token}
    (h : Derives n (.expression m x e) ts) (hml : m.rank ≤ l.rank) :
    Derives n (.expression l x e) ts := by
  by_cases hne : m = l
  · subst hne
    exact h
  · exact .tighter (h.loosen (Level.rank_le_tighter hml hne))
termination_by l.rank
decreasing_by exact Level.rank_tighter_lt hml hne

/-! ## The two cases -/

/-- The front of `ts` has the form `p`, up to a token of a kind that may follow. -/
def Begins (n : Nat) (p : Phrase) (follows : Kind → Prop) (ts : List Token) : Prop :=
  ∃ us u rest, Derives n p us ∧ ts = us ++ u :: rest ∧ follows u.kind

/-- The front of `ts` is an operand, up to a token that is not the start of its arguments, if it is one
that can be called. -/
def BeginsOperand (n : Nat) (ts : List Token) : Prop :=
  ∃ m y e, m.rank ≤ Level.unary.rank ∧
    Begins n (.expression m y e) (Ending.Allows y m.tighter) ts

/-- Reading `g` from the front of `ts` on breaks off. -/
def Stops (n : Nat) (g : Goal) (ts : List Token) : Prop :=
  ∃ x h rest, Breaks n g x h ∧ ts = x ++ h.token :: rest ∧ (h.onto = true → h.token.kind ≠ .eof)

/-- Expressions are read, or reading them breaks off. -/
def Decides (n : Nat) : Prop :=
  ∀ l ∈ Level.readable, ∀ (t : Token) (ts : List Token), t.kind ≠ .eof → Terminated (t :: ts) →
    (∃ y e, Begins n (.expression l y e) (Ending.Allows y l) (t :: ts)) ∨
      Stops n (.expression l) (t :: ts)

namespace Stops

variable {n m : Nat} {g g' : Goal} {ts us : List Token} {t : Token} {k : Kind}

/-- Reading that breaks off after a phrase that is complete. -/
theorem prepend (us : List Token) (h : Stops n g ts)
    (hf : ∀ x h, Breaks n g x h → ts.head? = some (h.first x) → Breaks m g' (us ++ x) h) :
    Stops m g' (us ++ ts) := by
  obtain ⟨x, h, rest, hb, rfl, ho⟩ := h
  refine ⟨us ++ x, h, rest, hf x h hb ?_, by rw [List.append_assoc], ho⟩
  cases x <;> rfl

theorem imp (h : Stops n g ts)
    (hf : ∀ x h, Breaks n g x h → ts.head? = some (h.first x) → Breaks m g' x h) :
    Stops m g' ts :=
  h.prepend [] hf

theorem token (h : t.kind ≠ k) : Stops n (.token k) (t :: ts) :=
  ⟨[], _, ts, .token h, rfl, by simp [Halt.before]⟩

/-- A token that is missing is where reading breaks off. -/
theorem prepend_token (us : List Token) (ht : t.kind ≠ k)
    (hf : ∀ h : Halt, h.token = t → Breaks n (.token k) [] h → Breaks m g' us h) :
    Stops m g' (us ++ t :: ts) :=
  ⟨us, _, ts, hf _ rfl (.token ht), rfl, by simp [Halt.before]⟩

end Stops

section

variable {n : Nat} {t : Token} {ts : List Token} {i : Item}

/-! ### After a token -/

theorem Decides.next (hE : Decides n) {l : Level} (hl : l ∈ Level.readable) (w : Wanted)
    (hts : Terminated ts) :
    (∃ y e, Begins n (.expression l y e) (Ending.Allows y l) ts) ∨ Stops n (.next l w) ts := by
  obtain ⟨t, us, rfl, hts⟩ := hts.exists_cons
  by_cases ht : t.kind = .eof
  · exact .inr ⟨[], _, us, .missing ht, rfl, by simp [Halt.before]⟩
  · refine (hE l hl t us ht hts).imp id fun h => ?_
    exact h.imp fun x h hb _ => .next hb

theorem Decides.item (hE : Decides n) (i : Item) (w : Wanted) (hts : Terminated ts) :
    (∃ y e, Begins n (i.phrase y e) (i.Allows y) ts) ∨ Stops n (.item i w) ts := by
  cases i with
  | argument =>
      refine (hE.next (by decide) w hts).imp id fun h => ?_
      exact h.imp fun x h hb _ => .argument hb
  | parameter =>
      obtain ⟨t, us, rfl, hts⟩ := hts.exists_cons
      by_cases ht : t.kind = .ident
      · obtain ⟨u, us, rfl, -⟩ := (hts.tail (by simp [ht])).exists_cons
        exact .inl ⟨.plain, _, [t], u, us, .parameter ht, rfl, trivial⟩
      · exact .inr ((Stops.token (n := n) ht).imp fun x h hb _ => .parameter hb)

/-! ### Lists -/

/-- A list that is begun is read to its end, or reading it breaks off. -/
theorem Decides.rest (hE : Decides n) {y : Ending} {es : List Node} {us rest : List Token}
    {u : Token} (h : Derives n (.started i y es) us) (hu : i.Allows y u.kind)
    (hts : Terminated (u :: rest)) :
    (∃ es, Begins n (.items i es) (fun _ => True) (us ++ u :: rest)) ∨
      Stops n (.items i) (us ++ u :: rest) := by
  induction hk : rest.length using Nat.strongRecOn generalizing y es us u rest with
  | _ k ih =>
    by_cases hc : u.kind = .comma
    · rcases hE.item i .nextArgument (hts.tail (by simp [hc])) with
        ⟨y', e, vs, v, rest', he, rfl, hv⟩ | hs
      · rw [List.length_append, List.length_cons] at hk
        have hlist := ih rest'.length (by omega) (.nextItem h hc he) hv
          (hts.of_append (u :: vs)) rfl
        rw [List.append_assoc] at hlist
        exact hlist
      · rw [List.append_cons]
        refine .inr (hs.prepend (us ++ [u]) fun x h' hb _ => ?_)
        rw [List.append_assoc]
        exact .nextItem h hc hb
    · by_cases hr : u.kind = .rparen
      · obtain ⟨v, rest, rfl, -⟩ := (hts.tail (by simp [hr])).exists_cons
        exact .inl ⟨es, us ++ [u], v, rest, .items h hr, by simp, trivial⟩
      · refine .inr (Stops.prepend_token (n := n) us hr fun h' ht hb => ?_)
        rw [← List.append_nil us]
        exact .openItems h (by rw [ht]; exact hu) (by rw [ht]; exact hc) hb

theorem Decides.items (hE : Decides n) (i : Item) (hl : t.kind = .lparen)
    (hts : Terminated (t :: ts)) :
    (∃ es, Begins n (.items i es) (fun _ => True) (t :: ts)) ∨ Stops n (.items i) (t :: ts) := by
  have hts' := hts.tail (by simp [hl])
  obtain ⟨u, us, rfl, -⟩ := hts'.exists_cons
  by_cases hr : u.kind = .rparen
  · obtain ⟨v, rest, rfl, -⟩ := (hts'.tail (by simp [hr])).exists_cons
    exact .inl ⟨[], [t, u], v, rest, .noItems hl hr, rfl, trivial⟩
  · rcases hE.item i .firstArgument hts' with ⟨y, e, vs, v, rest, he, heq, hv⟩ | hs
    · rw [heq] at hts ⊢
      exact hE.rest (.firstItem hl he) hv (hts.of_append (t :: vs))
    · refine .inr (hs.prepend [t] fun x h hb hfirst => ?_)
      rw [List.head?_cons, Option.some.injEq] at hfirst
      have hne : (h.first x).kind ≠ .rparen := by rwa [← hfirst]
      exact .firstItem hl hne hb

/-! ### Statements and blocks -/

/-- An expression is a value, with the semicolon after it if there is one. -/
theorem Begins.value {y : Ending} {e : Node}
    (h : Begins n (.expression .equality y e) (Ending.Allows y .equality) ts)
    (hts : Terminated ts) : ∃ x, Begins n (.value x e) (Ending.Closes x) ts := by
  obtain ⟨us, u, rest, he, rfl, hu⟩ := h
  by_cases hs : u.kind = .semicolon
  · obtain ⟨v, rest, rfl, -⟩ := ((hts.of_append _).tail (by simp [hs])).exists_cons
    exact ⟨.semicolon, us ++ [u], v, rest, .ended he hs, by simp, fun hx => absurd rfl hx⟩
  · exact ⟨y, us, u, rest, .bare he, rfl, fun _ => ⟨hs, hu⟩⟩

theorem Decides.statement (hE : Decides n) (ht : t.kind ≠ .eof) (hts : Terminated (t :: ts)) :
    (∃ x s, Begins n (.statement x s) (Ending.Closes x) (t :: ts)) ∨
      Stops n .statement (t :: ts) := by
  by_cases hlet : t.kind = .letWord
  · obtain ⟨u, us, rfl, hus⟩ := (hts.tail ht).exists_cons
    by_cases hname : u.kind = .ident
    · obtain ⟨v, vs, rfl, hvs⟩ := (hus.tail (by simp [hname])).exists_cons
      by_cases heq : v.kind = .assign
      · have hts := hvs.tail (by simp [heq])
        rcases hE.next (l := .equality) (by decide) .letValue hts with ⟨y, e, hb⟩ | hs
        · obtain ⟨x, ws, w, rest, hv, rfl, hw⟩ := hb.value hts
          exact .inl ⟨x, _, t :: u :: v :: ws, w, rest, .binding hlet hname heq hv, rfl, hw⟩
        · exact .inr (hs.prepend [t, u, v] fun x h hb _ => .binding hlet hname heq hb)
      · exact .inr (.prepend_token [t, u] heq fun h _ hb => .noAssign hlet hname hb)
    · exact .inr (.prepend_token [t] hname fun h _ hb => .noName hlet hb)
  · by_cases hret : t.kind = .returnWord
    · have hts := hts.tail ht
      rcases hE.next (l := .equality) (by decide) .returnValue hts with ⟨y, e, hb⟩ | hs
      · obtain ⟨x, ws, w, rest, hv, rfl, hw⟩ := hb.value hts
        exact .inl ⟨x, _, t :: ws, w, rest, .returning hret hv, rfl, hw⟩
      · exact .inr (hs.prepend [t] fun x h hb _ => .returning hret hb)
    · rcases hE .equality (by decide) t ts ht hts with ⟨y, e, hb⟩ | hs
      · obtain ⟨x, ws, w, rest, hv, heq, hw⟩ := hb.value hts
        exact .inl ⟨x, _, ws, w, rest, .expression hv, heq, hw⟩
      · refine .inr (hs.imp fun x h hb hfirst => ?_)
        rw [List.head?_cons, Option.some.injEq] at hfirst
        exact .bare (by rwa [← hfirst]) (by rwa [← hfirst]) hb

theorem Decides.statements (hE : Decides n) (opening : Token) (hts : Terminated ts) :
    (∃ ss, Begins n (.statements ss) (· = .rbrace) ts) ∨ Stops n (.statements opening) ts := by
  induction hk : ts.length using Nat.strongRecOn generalizing ts with
  | _ k ih =>
    obtain ⟨t, us, rfl, hts⟩ := hts.exists_cons
    by_cases ht : t.kind = .eof
    · exact .inr ⟨[], _, us, .unfinished ht, rfl, by simp [Halt.before]⟩
    by_cases hr : t.kind = .rbrace
    · exact .inl ⟨[], [], t, us, .noStatements, rfl, hr⟩
    rcases hE.statement ht hts with ⟨x, s, vs, v, rest, hs, heq, hv⟩ | hs
    · have hpos := List.length_pos_iff.2 (hs.ne_nil (by simp))
      rw [heq] at hts hk ⊢
      rw [List.length_append] at hk
      rcases ih (v :: rest).length (by omega) (hts.of_append _) rfl with
        ⟨ss, ws, w, rest', hss, heq', hw⟩ | hstop
      · refine .inl ⟨s :: ss, vs ++ ws, w, rest', .statements hs hss ?_, ?_, hw⟩
        · intro hx a ha
          cases ws with
          | nil => simp at ha
          | cons b ws =>
              obtain ⟨rfl, -⟩ := List.cons.inj heq'
              obtain rfl := Option.some.inj ha
              exact (hv hx).2.1
        · rw [heq', List.append_assoc]
      · refine .inr (hstop.prepend vs fun x' h hb hfirst => ?_)
        rw [List.head?_cons, Option.some.injEq] at hfirst
        exact .laterStatement hs (by rwa [← hfirst]) hb
    · refine .inr (hs.imp fun x h hb hfirst => ?_)
      rw [List.head?_cons, Option.some.injEq] at hfirst
      exact .statement (by rwa [← hfirst]) hb

theorem Decides.body (hE : Decides n) (hts : Terminated ts) :
    (∃ b, Begins n (.block b) (fun _ => True) ts) ∨ Stops n .body ts := by
  obtain ⟨t, us, rfl, hts⟩ := hts.exists_cons
  by_cases hl : t.kind = .lbrace
  · rcases hE.statements t (hts.tail (by simp [hl])) with ⟨ss, vs, v, rest, hss, heq, hv⟩ | hs
    · rw [heq] at hts ⊢
      obtain ⟨w, rest, rfl, -⟩ :=
        ((hts.of_append (t :: vs)).tail (by simp [hv])).exists_cons
      exact .inl ⟨_, t :: (vs ++ [v]), w, rest, .block hl hss hv, by simp, trivial⟩
    · obtain ⟨x, h, rest, hb, rfl, ho⟩ := hs
      exact .inr ⟨t :: x, h.deeper, rest, .body (.block hl hb), rfl, ho⟩
  · exact .inr ((Stops.token (n := n) hl).imp fun x h hb _ => .noBody hb)

/-! ### Operands -/

/-- A primary expression is an operand before every token but the `else` of a conditional. -/
theorem BeginsOperand.of_primary {y : Ending} {e : Node} {f : Kind → Prop}
    (h : Begins n (.expression .primary y e) f ts)
    (hf : ∀ k, f k → y = .conditional → k ≠ .elseWord) : BeginsOperand n ts := by
  obtain ⟨us, u, rest, he, heq, hu⟩ := h
  exact ⟨.primary, y, e, by decide, us, u, rest, he, heq,
    by simp [Level.tighter, Level.continuations], hf _ hu⟩

theorem BeginsOperand.of_token {e : Node} (h : Derives n (.expression .primary .plain e) [t])
    (hts : Terminated ts) : BeginsOperand n (t :: ts) := by
  obtain ⟨u, rest, rfl, -⟩ := hts.exists_cons
  exact .of_primary (f := fun _ => True) ⟨[t], u, rest, h, rfl, trivial⟩ (by simp)

theorem Decides.group (hE : Decides n) {l : Level} (hl : t.kind = .lparen) (hts : Terminated ts) :
    (∃ e, Begins (n + 1) (.expression .primary .plain e) (fun _ => True) (t :: ts)) ∨
      Stops (n + 1) (.expression l) (t :: ts) := by
  rcases hE.next (l := .equality) (by decide) .groupBody hts with
    ⟨y, e, us, u, rest, he, rfl, hu⟩ | hs
  · by_cases hr : u.kind = .rparen
    · obtain ⟨v, rest, rfl, -⟩ := ((hts.of_append _).tail (by simp [hr])).exists_cons
      exact .inl ⟨e, t :: (us ++ [u]), v, rest, .group hl he hr, by simp, trivial⟩
    · exact .inr ⟨t :: us, _, rest, .unclosed hl he hr hu, rfl, by simp [Halt.before]⟩
  · exact .inr (hs.prepend [t] fun x h hb _ => .group hl hb)

theorem Decides.conditional (hE : Decides n) {l : Level} (hk : t.kind = .ifWord)
    (hts : Terminated ts) :
    (∃ y e, Begins (n + 1) (.expression .primary y e)
      (fun k => y = .conditional → k ≠ .elseWord) (t :: ts)) ∨
      Stops (n + 1) (.expression l) (t :: ts) := by
  obtain ⟨lp, ts, rfl, hlp⟩ := hts.exists_cons
  by_cases hl : lp.kind = .lparen
  rotate_left
  · exact .inr (.prepend_token [t] hl fun h _ hb => .noCondition hk hb)
  have hts := hlp.tail (by simp [hl])
  rcases hE.next (l := .equality) (by decide) .condition hts with
    ⟨y, c, us, rp, rest, hc, rfl, hu⟩ | hs
  rotate_left
  · exact .inr (hs.prepend [t, lp] fun x h hb _ => .condition hk hl hb)
  by_cases hr : rp.kind = .rparen
  rotate_left
  · refine .inr (Stops.prepend_token (n := n) (t :: lp :: us) hr fun h ht hb => ?_)
    rw [← List.append_nil us]
    exact .openCondition hk hl hc (by rw [ht]; exact hu) hb
  have hrest := (hts.of_append _).tail (by simp [hr])
  rcases hE.body hrest with ⟨a, vs, els, rest', ha, rfl, -⟩ | hs
  rotate_left
  · have hstop : Stops (n + 1) (.expression l) (t :: lp :: (us ++ [rp]) ++ rest) :=
      hs.prepend _ fun x h hb _ => by
        simpa using Breaks.consequence hk hl hc hr hb
    exact .inr (by simpa using hstop)
  by_cases he : els.kind = .elseWord
  rotate_left
  · exact .inl ⟨.conditional, _, t :: lp :: (us ++ rp :: vs), els, rest',
      .conditional hk hl hc hr ha, by simp, fun _ => he⟩
  have hels := (hrest.of_append _).tail (by simp [he])
  rcases hE.body hels with ⟨b, ws, w, rest'', hb, rfl, -⟩ | hs
  · exact .inl ⟨.plain, _, t :: lp :: (us ++ rp :: (vs ++ els :: ws)), w, rest'',
      .alternative hk hl hc hr ha he hb, by simp, by simp⟩
  · have hstop : Stops (n + 1) (.expression l) (t :: lp :: (us ++ rp :: (vs ++ [els])) ++ rest') :=
      hs.prepend _ fun x h hb _ => by
        simpa using Breaks.alternative hk hl hc hr ha he hb
    exact .inr (by simpa using hstop)

theorem Decides.function (hE : Decides n) {l : Level} (hk : t.kind = .fnWord)
    (hts : Terminated ts) :
    (∃ e, Begins (n + 1) (.expression .primary .plain e) (fun _ => True) (t :: ts)) ∨
      Stops (n + 1) (.expression l) (t :: ts) := by
  obtain ⟨lp, ts, rfl, hlp⟩ := hts.exists_cons
  by_cases hl : lp.kind = .lparen
  rotate_left
  · exact .inr (.prepend_token [t] hl fun h _ hb => .noParameters hk hb)
  rcases hE.items .parameter hl hlp with ⟨ps, us, u, rest, hp, heq, -⟩ | hs
  rotate_left
  · exact .inr (hs.prepend [t] fun x h hb _ => .parameters hk hb)
  rw [heq] at hlp ⊢
  rcases hE.body (hlp.of_append _) with ⟨b, vs, v, rest', hb, heq', -⟩ | hs
  · exact .inl ⟨_, t :: (us ++ vs), v, rest', .function hk hp hb, by simp [heq'], trivial⟩
  · exact .inr (hs.prepend (t :: us) fun x h hb _ => .function hk hp hb)

theorem Decides.unary (hE : Decides n) {l : Level} (ho : t.kind ∈ [Kind.bang, Kind.minus])
    (hts : Terminated ts) :
    BeginsOperand (n + 1) (t :: ts) ∨ Stops (n + 1) (.expression l) (t :: ts) := by
  rcases hE.next (l := .unary) (by decide) (.operand t.text) hts with
    ⟨y, e, us, u, rest, he, rfl, hu⟩ | hs
  · exact .inl ⟨.unary, y, _, Nat.le_refl _, t :: us, u, rest, .unary ho he, rfl, hu.tighter⟩
  · exact .inr (hs.prepend [t] fun x h hb _ => .unary ho hb)

/-- An integer literal is an operand unless it is malformed or out of range. -/
theorem operand_of_int {l : Level} (hk : t.kind = .int) (ht : t.kind ≠ .eof) (hts : Terminated ts) :
    BeginsOperand (n + 1) (t :: ts) ∨ Stops (n + 1) (.expression l) (t :: ts) := by
  cases hv : Text.Numeral.readLiteral t.text with
  | ok v => exact .inl (.of_token (.integer hk hv) hts)
  | error e =>
      cases e with
      | malformed => exact .inr ⟨[], _, ts, .malformed hk hv, rfl, fun _ => ht⟩
      | outOfRange => exact .inr ⟨[], _, ts, .outOfRange hk hv, rfl, fun _ => ht⟩

/-- An operand is read, or reading it breaks off: its first token tells which kind of operand. -/
theorem Decides.operand (hE : Decides n) (l : Level) (ht : t.kind ≠ .eof)
    (hts : Terminated (t :: ts)) :
    BeginsOperand (n + 1) (t :: ts) ∨ Stops (n + 1) (.expression l) (t :: ts) := by
  by_cases hstart : t.kind ∈ Kind.operandStarts
  rotate_left
  · exact .inr ⟨[], _, ts, .noOperand hstart, rfl, fun _ => ht⟩
  have hts' := hts.tail ht
  simp only [Kind.operandStarts, List.mem_cons, List.not_mem_nil, or_false] at hstart
  rcases hstart with hk | hk | hk | hk | hk | hk | hk | hk
  · exact .inl (.of_token (.identifier hk) hts')
  · exact operand_of_int hk ht hts'
  · exact .inl (.of_token (.boolean hk) hts')
  · exact hE.unary (by simp [hk]) hts'
  · exact hE.unary (by simp [hk]) hts'
  · refine (hE.group hk hts').imp (fun h => ?_) id
    obtain ⟨e, h⟩ := h
    exact .of_primary h (by simp)
  · refine (hE.conditional hk hts').imp (fun h => ?_) id
    obtain ⟨y, e, h⟩ := h
    exact .of_primary h fun _ => id
  · refine (hE.function hk hts').imp (fun h => ?_) id
    obtain ⟨e, h⟩ := h
    exact .of_primary h (by simp)

/-! ### Expressions -/

/-- An operand is taken as far as its expression goes, or what follows it breaks off.  The invariant
is that what follows goes on with no operand of the level that was read last. -/
theorem Decides.climb (hE : Decides n) {l m : Level} (hl : l ∈ Level.readable)
    (hml : m.rank ≤ l.rank) {y : Ending} {e : Node} {us rest : List Token} {u : Token}
    (h : Derives (n + 1) (.expression m y e) us) (hu : y.Allows m.tighter u.kind)
    (hts : Terminated (u :: rest)) :
    (∃ y e, Begins (n + 1) (.expression l y e) (Ending.Allows y l) (us ++ u :: rest)) ∨
      Stops (n + 1) (.expression l) (us ++ u :: rest) := by
  induction hk : rest.length using Nat.strongRecOn generalizing m y e us u rest with
  | _ k ih =>
    by_cases hgo : u.kind ∈ l.continuations
    rotate_left
    · exact .inl ⟨y, e, us, u, rest, h.loosen hml, rfl, hgo, hu.2⟩
    rcases Level.eq_lparen_or_mem_operators hgo with hp | ⟨j, hj, hop, hjl⟩
    · rw [hp] at hu
      have hm := Level.rank_le_application hu.1
      rcases hE.items .argument hp hts with ⟨as, vs, v, rest', ha, heq, -⟩ | hs
      · have hpos := List.length_pos_iff.2 (ha.ne_nil (by simp))
        have hlen := congrArg List.length heq
        rw [List.length_append, List.length_cons, List.length_cons] at hlen
        rw [heq] at hts ⊢
        have hcall := Derives.call (h.loosen hm) ha
        have hv : Ending.plain.Allows Level.application.tighter v.kind :=
          ⟨by simp [Level.tighter, Level.continuations], by simp⟩
        have hgoes := ih rest'.length (by omega)
          (Nat.le_trans (by decide) (Level.unary_rank_le hl)) hcall hv (hts.of_append _) rfl
        rw [List.append_assoc] at hgoes
        exact hgoes
      · exact .inr (hs.prepend us fun x h' hb _ =>
          .arguments (h.loosen hm) (Level.application_subset hl) hb)
    · have hmj := Level.rank_le_of_not_mem hop hu.1
      have heof : u.kind ≠ .eof := by
        rintro hk
        rw [hk] at hop
        cases j <;> simp [Level.operators] at hop
      have hrest := hts.tail heof
      rcases hE.next (Level.tighter_mem_readable hj) (.operand u.text) hrest with
        ⟨y', b, vs, v, rest', hb, rfl, hv⟩ | hs
      · rw [List.length_append, List.length_cons] at hk
        have hbinary := Derives.binary (h.loosen hmj) hop hb
        have hgoes := ih rest'.length (by omega) (Level.rank_le_of_mem hop hgo) hbinary hv
          (hrest.of_append _) rfl
        rw [List.append_assoc] at hgoes
        exact hgoes
      · rw [List.append_cons]
        refine .inr (hs.prepend (us ++ [u]) fun x h' hb _ => ?_)
        rw [← List.append_cons]
        exact .right (h.loosen hmj) hop hjl hb

end

/-- Tokens are read, or reading them breaks off: induction on the bound for nesting. -/
theorem decides (n : Nat) : Decides n := by
  induction n with
  | zero =>
      intro l _ t ts ht _
      exact .inr ⟨[], _, ts, .nested, rfl, fun _ => ht⟩
  | succ n hE =>
      intro l hl t ts ht hts
      rcases hE.operand l ht hts with ⟨m, y, e, hm, us, u, rest, he, heq, hu⟩ | hs
      · rw [heq] at hts ⊢
        exact hE.climb hl (Nat.le_trans hm (Level.unary_rank_le hl)) he hu (hts.of_append _)
      · exact .inr hs

/-! ## Cursors -/

namespace Cursor

variable {c d : Cursor} {n : Nat} {us rest : List Token} {u : Token}

theorem kind_ne_eof_of_mem_upcoming {t : Token} (h : t ∈ c.upcoming) : t.kind ≠ .eof := by
  unfold upcoming at h
  split at h
  · simp at h
  · next hc =>
      rcases List.mem_cons.1 h with rfl | h
      · exact hc
      · exact TokenSource.kind_ne_eof_of_mem_pending h

theorem kind_ne_eof_of_mem (hc : c.current.kind ≠ .eof) :
    ∀ t ∈ c.current :: c.upcoming, t.kind ≠ .eof :=
  List.forall_mem_cons.2 ⟨hc, fun _ => kind_ne_eof_of_mem_upcoming⟩

/-- From a cursor on, the tokens end with an end of input. -/
theorem terminated (hc : c.current.kind ≠ .eof) :
    Terminated (c.current :: c.upcoming ++ [c.final]) :=
  .append (kind_ne_eof_of_mem hc) c.kind_final

/-- What reading takes before it breaks off is a span, up to the token that it cannot take. -/
theorem exists_reached {x : List Token} {h : Halt}
    (heq : c.current :: c.upcoming ++ [c.final] = x ++ h.token :: rest)
    (hx : x ≠ [] ∨ h.onto = true) (honto : h.onto = true → h.token.kind ≠ .eof) :
    ∃ d, h.Reached c x d := by
  unfold Halt.Reached
  by_cases ho : h.onto = true
  · cases rest with
    | nil =>
        obtain ⟨hfinal, -⟩ := List.cons.inj (List.append_inj' heq rfl).2
        exact absurd (by rw [← hfinal]; exact c.kind_final) (honto ho)
    | cons v rest =>
        have hon : c.current :: c.upcoming ++ [c.final] = (x ++ [h.token]) ++ v :: rest := by
          rw [List.append_assoc]
          exact heq
        obtain ⟨d, hd, -⟩ := exists_spans_lookahead hon (by simp)
        exact ⟨d, by rwa [if_pos ho]⟩
  · obtain ⟨d, hd, hahead⟩ := exists_spans_lookahead heq (hx.resolve_right ho)
    exact ⟨d, by rw [if_neg ho]; exact ⟨hd, hahead⟩⟩

/-- What happens at the first token of a statement. -/
theorem statement_cases (n : Nat) (hc : c.current.kind ≠ .eof) :
    (∃ x s us d, Derives n (.statement x s) us ∧ c.Spans us d ∧ x.Closes d.lookahead.kind) ∨
      ∃ x h d, Breaks n .statement x h ∧ h.Reached c x d := by
  rcases (decides n).statement hc (terminated hc) with
    ⟨x, s, us, u, rest, hs, heq, hu⟩ | ⟨x, h, rest, hb, heq, ho⟩
  · obtain ⟨d, hd, rfl⟩ := exists_spans_lookahead heq (hs.ne_nil (by simp))
    exact .inl ⟨x, s, us, d, hs, hd, hu⟩
  · obtain ⟨d, hr⟩ := exists_reached heq (hb.ne_nil_or_onto trivial) ho
    exact .inr ⟨x, h, d, hb, hr⟩

end Cursor

/-- A statement that is read has a derivation. -/
theorem Derives.of_run_statement {n : Nat} {c d : Cursor} {s : Node}
    (hc : c.current.kind ≠ .eof)
    (h : (Parse.statement (Parse.expression n)).run c = (.ok s, d)) :
    ∃ x us, Derives n (.statement x s) us ∧ c.Spans us d ∧ x.Closes d.lookahead.kind := by
  rcases Cursor.statement_cases n hc with ⟨x, s', us, d', hs, hspan, hd⟩ | ⟨x, k, d', hb, hr⟩
  · have hread := hs.read hspan hd
    rw [h, Prod.mk.injEq, Except.ok.injEq] at hread
    obtain ⟨rfl, rfl⟩ := hread
    exact ⟨x, us, hs, hspan, hd⟩
  · have hbroken := hb.broken hr
    rw [h] at hbroken
    simp at hbroken

/-- A statement that is not read breaks off. -/
theorem Breaks.of_run_statement {n : Nat} {c d : Cursor} {e : ParseError}
    (hc : c.current.kind ≠ .eof)
    (h : (Parse.statement (Parse.expression n)).run c = (.error e, d)) :
    ∃ x k f, Breaks n .statement x k ∧ k.Reached c x f ∧ e = k.error ∧ d = f.deepen k.depth := by
  rcases Cursor.statement_cases n hc with ⟨x, s', us, d', hs, hspan, hd⟩ | ⟨x, k, d', hb, hr⟩
  · have hread := hs.read hspan hd
    rw [h] at hread
    simp at hread
  · have hbroken := hb.broken hr
    rw [h, Prod.mk.injEq, Except.error.injEq] at hbroken
    exact ⟨x, k, d', hb, hr, hbroken⟩

end FnLang
