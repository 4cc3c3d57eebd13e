/- # FnLang.Proofs.Extent — what keeps a statement together.

Recovery has to find the end of a statement that it cannot read.  It can, because of two properties
of statements that can be read: a semicolon before their end stands in a block of theirs (`Inner`),
and what follows a block of theirs goes on with them.  The second one, with the first, is the same as
that skipping goes over an expression from one end to the other (`Derives.past`).  It is stated for
any count of open blocks, so that it holds of the parts of an expression too.
-/
import FnLang.Proofs.Recovery

namespace FnLang

/-! ## Semicolons inside blocks -/

/-- After `k` open braces, every semicolon of the tokens stands inside some brace. -/
def Inner : Int → List Token → Prop
  | _, [] => True
  | k, t :: ts => (t.kind = .semicolon → 0 < k) ∧ Inner (k + t.kind.rise) ts

namespace Inner

variable {j k : Int} {t semi : Token} {us vs : List Token}

theorem append_iff : Inner k (us ++ vs) ↔ Inner k us ∧ Inner (k + height us) vs := by
  induction us generalizing k with
  | nil => simp [Inner]
  | cons u us ih =>
      show (u.kind = .semicolon → 0 < k) ∧ Inner (k + u.kind.rise) (us ++ vs) ↔
        ((u.kind = .semicolon → 0 < k) ∧ Inner (k + u.kind.rise) us) ∧
          Inner (k + (u.kind.rise + height us)) vs
      rw [ih, ← Int.add_assoc, and_assoc]

/-- Inside a block every semicolon does. -/
theorem of_rising (h : Rising j us) (hjk : j < k) : Inner k us := by
  induction us generalizing j k with
  | nil => trivial
  | cons u us ih =>
      have hj := h.1
      exact ⟨fun _ => by omega, ih h.2 (by omega)⟩

/-- After a semicolon a block is still open. -/
theorem height_pos (h : Inner 0 (us ++ [semi] ++ vs)) (hs : semi.kind = .semicolon) :
    0 < height (us ++ [semi]) := by
  have hsemi := (append_iff.1 (append_iff.1 h).1).2.1 hs
  rw [height_append, height_cons, height_nil, hs]
  simp only [Kind.rise]
  omega

end Inner

/-! ## Skipping over tokens -/

/-- Skips over all of the tokens, before one of kind `next`; gives the count of open blocks after
them, unless skipping ends among them. -/
def Skip.past (next : Kind) : Nat → List Token → Option Nat
  | k, [] => some k
  | k, t :: ts =>
      match Skip.at t.kind ((ts.head?.map Token.kind).getD next) k with
      | .goOn j => past next j ts
      | _ => none

namespace Skip

variable {next : Kind} {j k : Nat} {t : Token} {ts us vs : List Token}

@[simp] theorem past_nil : past next k [] = some k := rfl

theorem past_cons_of_goOn (h : Skip.at t.kind ((ts.head?.map Token.kind).getD next) k = .goOn j) :
    past next k (t :: ts) = past next j ts := by
  rw [past, h]

theorem past_cons_of_ne (hl : t.kind ≠ .lbrace) (hr : t.kind ≠ .rbrace)
    (hs : k = 0 → t.kind ≠ .semicolon) : past next k (t :: ts) = past next k ts :=
  past_cons_of_goOn (at_of_ne hl hr hs)

/-- To skip over two parts is to skip over one after the other. -/
theorem past_append : past next k (us ++ vs) =
    (past ((vs.head?.map Token.kind).getD next) k us).bind fun j => past next j vs := by
  induction us generalizing k with
  | nil => rfl
  | cons u us ih =>
      have hnext : ((us ++ vs).head?.map Token.kind).getD next =
          (us.head?.map Token.kind).getD ((vs.head?.map Token.kind).getD next) := by
        cases us <;> rfl
      rw [List.cons_append, past, past, hnext]
      cases Skip.at u.kind _ k with
      | goOn j => exact ih
      | stop | takeSemicolon => rfl

/-- What is skipped over has its semicolons inside blocks, and the count is its height. -/
theorem inner_of_past (h : past next k ts = some j) :
    Inner k ts ∧ (j : Int) = k + height ts := by
  induction ts generalizing k with
  | nil =>
      obtain rfl := Option.some.inj h
      exact ⟨trivial, by simp⟩
  | cons t ts ih =>
      rw [past] at h
      split at h
      · next i hat =>
          obtain ⟨hinner, hheight⟩ := ih h
          have hstep := count_of_goOn hat
          rw [hstep.1] at hinner hheight
          refine ⟨⟨fun hs => ?_, hinner⟩, by rw [hheight, height_cons, Int.add_assoc]⟩
          exact Int.natCast_pos.2 (hstep.2 hs)
      · simp at h

theorem past_cons (c : Kind) (ht : t.kind = c)
    (hc : c ∉ [Kind.lbrace, .rbrace, .semicolon, .illegal] := by decide) :
    past next k (t :: ts) = past next k ts := by
  subst ht
  simp only [List.mem_cons, List.not_mem_nil, or_false, not_or] at hc
  exact past_cons_of_ne hc.1 hc.2.1 fun _ => hc.2.2.1

theorem past_append_of_eq (h : past ((vs.head?.map Token.kind).getD next) k us = some k) :
    past next k (us ++ vs) = past next k vs := by
  rw [past_append, h]
  rfl

end Skip

theorem Kind.continues_of_mem_operators {l : Level} {k : Kind} (h : k ∈ l.operators) :
    k.continuesStatement = true := by
  revert k
  cases l <;> decide

/-- When skipping goes over a form, with `k` blocks open and a token of kind `next` after it: always,
if the form ends with a parenthesis; if there is an open block, for statements; and also if `next`
goes on with a statement, for the parts of one. -/
def Phrase.Flows (k : Nat) (next : Kind) : Phrase → Prop
  | .items .. => True
  | .value .. | .statement .. | .statements _ => 0 < k
  | _ => 0 < k ∨ next.continuesStatement = true

theorem Phrase.IsPart.flows {p : Phrase} (h : p.IsPart) : p.Flows 0 .comma := by
  cases p with
  | items => trivial
  | value | statement | statements => exact h.elim
  | _ => exact .inr (by decide)

namespace Derives

variable {n : Nat} {p : Phrase} {ts : List Token}

open Skip

/-- Skipping goes over what has a derivation, and comes out with the count it went in with.  The
induction follows the rules: each part is followed by a token that goes on with the statement, or by
none of consequence because the part ends with a parenthesis. -/
theorem past (h : Derives n p ts) {k : Nat} {next : Kind} (hp : p.Flows k next) :
    Skip.past next k ts = some k := by
  induction h generalizing k next with
  | identifier ht | integer ht | boolean ht | parameter ht => exact past_cons _ ht
  | group hl _ hr ih =>
      rw [past_cons _ hl, past_append_of_eq (ih (.inr (by simp [hr]; decide))), past_cons _ hr,
        past_nil]
  | conditional hk hl _ hr _ ihc ihb =>
      rw [past_cons _ hk, past_cons _ hl, past_append_of_eq (ihc (.inr (by simp [hr]; decide))),
        past_cons _ hr]
      exact ihb hp
  | alternative hk hl _ hr _ he _ ihc iha ihb =>
      rw [past_cons _ hk, past_cons _ hl, past_append_of_eq (ihc (.inr (by simp [hr]; decide))),
        past_cons _ hr, past_append_of_eq (iha (.inr (by simp [he]; decide))), past_cons _ he]
      exact ihb hp
  | function hk _ _ ihp ihb =>
      rw [past_cons _ hk, past_append_of_eq (ihp trivial)]
      exact ihb hp
  | call _ ha ihf iha =>
      obtain ⟨lp, us, rfl, hl⟩ := ha.exists_lparen
      rw [past_append_of_eq (ihf (.inr (by simp [hl]; decide)))]
      exact iha trivial
  | @unary n op x e us ho _ ih =>
      rw [past_cons _ rfl (Kind.not_mem_of_mem_unary ho)]
      exact ih hp
  | binary _ ho _ iha ihb =>
      have hcontinues := Kind.continues_of_mem_operators ho
      rw [past_append_of_eq (iha (.inr (by exact hcontinues))),
        past_cons _ rfl (Kind.not_mem_of_mem_operators ho)]
      exact ihb hp
  | tighter _ ih => exact ih hp
  | @firstItem n i lp x e us hl _ ih =>
      rw [past_cons _ hl]
      cases i <;> exact ih hp
  | @nextItem n i comma x y es e us vs _ hc _ ihs ih =>
      rw [past_append_of_eq (ihs (.inr (by simp [hc]; decide))), past_cons _ hc]
      cases i <;> exact ih hp
  | noItems hl hr => rw [past_cons _ hl, past_cons _ hr, past_nil]
  | items _ hr ih =>
      rw [past_append_of_eq (ih (.inr (by simp [hr]; decide))), past_cons _ hr, past_nil]
  | @block n lb rb ss us hl _ hr ih =>
      have hopen : Skip.at lb.kind (((us ++ [rb]).head?.map Token.kind).getD next) k =
          .goOn (k + 1) := by
        rw [hl]
        rfl
      have hinside : Skip.past rb.kind (k + 1) us = some (k + 1) := ih (Nat.succ_pos k)
      have hclose : Skip.at rb.kind next (k + 1) = .goOn k := by rw [hr, at_rbrace_of_goOn hp]
      rw [past_cons_of_goOn hopen, past_append_of_eq (by exact hinside), past_cons_of_goOn hclose,
        past_nil]
  | bare _ ih => exact ih (.inl hp)
  | ended _ hs ih =>
      have hpos : k ≠ 0 := Nat.ne_of_gt hp
      rw [past_append_of_eq (ih (.inl hp)), past_cons_of_ne (by simp [hs]) (by simp [hs])
        (fun hk => absurd hk hpos), past_nil]
  | binding hk hn he _ ih =>
      rw [past_cons _ hk, past_cons _ hn, past_cons _ he]
      exact ih hp
  | returning hk _ ih =>
      rw [past_cons _ hk]
      exact ih hp
  | expression _ ih => exact ih hp
  | noStatements => rfl
  | statements _ _ _ ihs ihss =>
      rw [past_append_of_eq (ihs hp)]
      exact ihss hp

end Derives

/-! ## Statements and their ends -/

/-- A statement is a body that skipping goes over, with a semicolon after it or without. -/
structure Ending.Splits (x : Ending) (ts body tail : List Token) : Prop where
  eq_append : ts = body ++ tail
  past : ∀ {k : Nat} {next : Kind}, 0 < k ∨ next.continuesStatement = true →
    Skip.past next k body = some k
  tail_eq : tail = [] ∧ x ≠ .semicolon ∨
    x = .semicolon ∧ ∃ semi : Token, tail = [semi] ∧ semi.kind = .semicolon

namespace Ending.Splits

variable {x : Ending} {ts body tail us vs : List Token} {t semi : Token}

theorem cons (h : x.Splits ts body tail) {k : Kind} (ht : t.kind = k)
    (hk : k ∉ [Kind.lbrace, .rbrace, .semicolon, .illegal] := by decide) :
    x.Splits (t :: ts) (t :: body) tail :=
  ⟨by rw [h.eq_append]; rfl, fun hj => by rw [Skip.past_cons k ht hk, h.past hj], h.tail_eq⟩

theorem inner (h : x.Splits ts body tail) : Inner 0 body :=
  (Skip.inner_of_past (h.past (k := 0) (.inr (by decide : Kind.comma.continuesStatement = true)))).1

/-- A semicolon before the end of a statement stands in a block. -/
theorem height_pos (h : x.Splits (us ++ [semi] ++ vs) body tail) (hs : semi.kind = .semicolon)
    (hvs : vs = [] → x ≠ .semicolon) : 0 < height (us ++ [semi]) := by
  have hinner := h.inner
  have heq := h.eq_append
  rcases h.tail_eq with ⟨rfl, -⟩ | ⟨hx, semi', rfl, -⟩
  · rw [List.append_nil] at heq
    rw [← heq] at hinner
    exact hinner.height_pos hs
  · obtain ⟨ws, w, hws⟩ := (List.eq_nil_or_concat vs).resolve_left fun hnil => hvs hnil hx
    rw [hws, List.concat_eq_append, ← List.append_assoc] at heq
    rw [← (List.append_inj' heq rfl).1] at hinner
    exact hinner.height_pos hs

end Ending.Splits

namespace Derives

variable {n : Nat} {x : Ending} {e s : Node} {ts : List Token}

theorem value_splits (h : Derives n (.value x e) ts) : ∃ body tail, x.Splits ts body tail := by
  cases h with
  | bare h =>
      exact ⟨ts, [], by rw [List.append_nil], fun hk => h.past hk, .inl ⟨rfl, h.ending_ne_semicolon⟩⟩
  | @ended _ _ _ semi us h hs =>
      exact ⟨us, [semi], rfl, fun hk => h.past hk, .inr ⟨rfl, semi, rfl, hs⟩⟩

theorem splits (h : Derives n (.statement x s) ts) : ∃ body tail, x.Splits ts body tail := by
  cases h with
  | binding hk hn he h =>
      obtain ⟨body, tail, h⟩ := h.value_splits
      exact ⟨_, tail, ((h.cons he).cons hn).cons hk⟩
  | returning hk h =>
      obtain ⟨body, tail, h⟩ := h.value_splits
      exact ⟨_, tail, h.cons hk⟩
  | expression h => exact h.value_splits

theorem inner {p : Phrase} (h : Derives n p ts) (hp : p.Flows 0 .comma) : Inner 0 ts :=
  (Skip.inner_of_past (h.past hp)).1

end Derives

/-- Where reading breaks off, every semicolon that has been taken stands in a block. -/
theorem Takes.inner {ended : Prop} {k : Nat} {x : List Token} (h : Takes ended k x) :
    Inner 0 x := by
  induction h with
  | nil => trivial
  | @token k t x ht _ ih =>
      simp only [List.mem_cons, List.not_mem_nil, or_false, not_or] at ht
      refine ⟨fun hs => absurd hs ht.2.2.1, ?_⟩
      rw [Kind.rise_of_ne ht.1 ht.2.1]
      exact ih
  | phrase hd hp _ ih =>
      rw [Inner.append_iff, hd.balanced.height_eq]
      exact ⟨hd.inner hp.flows, ih⟩
  | @block k n lb ss us x hl hd hx _ _ =>
      have hus := hd.balanced
      refine ⟨fun hs => absurd (hl.symm.trans hs) (by decide), ?_⟩
      rw [hl]
      refine .of_rising (hus.rising.append ?_ hx.fits.1) (by decide)
      exact Int.le_of_eq hus.height_eq.symm

end FnLang
