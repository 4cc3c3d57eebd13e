/- # FnLang.Proofs.Braces — the braces of phrases, and the count of open blocks.

Recovery counts braces, so what is read has to be known by its braces.  `height` is how many more of
them are opened than closed, and `Rising k ts` says that after `k` open ones no brace of `ts` closes
one too many.  A phrase is balanced (`Derives.balanced`), and where reading breaks off the count of
open blocks is the height of what has been taken (`Takes.fits`).

Two more facts bear on recovery.  A semicolon before the end of a statement stands in a block of it
(`Inner`), and reading never breaks off right after an opening brace, except at the end of input
(`Takes.of_endsOpen`).
-/
import FnLang.Proofs.Breakdown

namespace FnLang

/-! ## Heights -/

/-- What a token adds to the number of open braces. -/
def Kind.rise : Kind → Int
  | lbrace => 1
  | rbrace => -1
  | _ => 0

theorem Kind.rise_of_ne {k : Kind} (hl : k ≠ lbrace) (hr : k ≠ rbrace) : k.rise = 0 := by
  cases k with
  | lbrace => exact absurd rfl hl
  | rbrace => exact absurd rfl hr
  | _ => rfl

/-- How many more braces are opened than closed. -/
def height : List Token → Int
  | [] => 0
  | t :: ts => t.kind.rise + height ts

@[simp] theorem height_nil : height [] = 0 := rfl

@[simp] theorem height_cons (t : Token) (ts : List Token) :
    height (t :: ts) = t.kind.rise + height ts := rfl

@[simp] theorem height_append (us vs : List Token) :
    height (us ++ vs) = height us + height vs := by
  induction us with
  | nil => simp
  | cons u us ih => rw [List.cons_append, height_cons, height_cons, ih, Int.add_assoc]

/-- The height is a difference of two counts. -/
theorem height_eq_count (ts : List Token) :
    height ts = ts.countP (·.kind = .lbrace) - ts.countP (·.kind = .rbrace) := by
  induction ts with
  | nil => rfl
  | cons t ts ih =>
      rw [height_cons, ih, List.countP_cons, List.countP_cons]
      by_cases hl : t.kind = .lbrace
      · simp [hl, Kind.rise]
        omega
      · by_cases hr : t.kind = .rbrace
        · simp [hr, Kind.rise]
          omega
        · simp [hl, hr, Kind.rise_of_ne]

/-! ## Braces that are closed were opened -/

/-- After `k` open braces, no brace of `ts` closes one that is not open. -/
def Rising : Int → List Token → Prop
  | k, [] => 0 ≤ k
  | k, t :: ts => 0 ≤ k ∧ Rising (k + t.kind.rise) ts

instance decidableRising : (k : Int) → (ts : List Token) → Decidable (Rising k ts)
  | k, [] => inferInstanceAs (Decidable (0 ≤ k))
  | k, t :: ts =>
      haveI := decidableRising (k + t.kind.rise) ts
      inferInstanceAs (Decidable (0 ≤ k ∧ Rising (k + t.kind.rise) ts))

/-- Every brace that is closed was opened, and every brace that is opened is closed. -/
structure Balanced (ts : List Token) : Prop where
  rising : Rising 0 ts
  height_eq : height ts = 0

namespace Rising

variable {j k : Int} {t : Token} {ts us vs : List Token}

theorem nonneg (h : Rising k ts) : 0 ≤ k := by
  cases ts with
  | nil => exact h
  | cons => exact h.1

theorem append_iff : Rising k (us ++ vs) ↔ Rising k us ∧ Rising (k + height us) vs := by
  induction us generalizing k with
  | nil =>
      rw [List.nil_append, height_nil, Int.add_zero]
      exact ⟨fun h => ⟨h.nonneg, h⟩, fun h => h.2⟩
  | cons u us ih =>
      show 0 ≤ k ∧ Rising (k + u.kind.rise) (us ++ vs) ↔
        (0 ≤ k ∧ Rising (k + u.kind.rise) us) ∧ Rising (k + (u.kind.rise + height us)) vs
      rw [ih, ← Int.add_assoc, and_assoc]

theorem mono (h : Rising k ts) (hkj : k ≤ j) : Rising j ts := by
  induction ts generalizing k j with
  | nil => exact Int.le_trans h hkj
  | cons t ts ih => exact ⟨Int.le_trans h.1 hkj, ih h.2 (by omega)⟩

theorem cons (ht : t.kind ≠ .rbrace) (h : Rising 0 ts) : Rising 0 (t :: ts) := by
  refine ⟨Int.le_refl 0, h.mono ?_⟩
  by_cases hl : t.kind = .lbrace
  · simp [hl, Kind.rise]
  · simp [Kind.rise_of_ne hl ht]

theorem append (hus : Rising 0 us) (hheight : 0 ≤ height us) (hvs : Rising 0 vs) :
    Rising 0 (us ++ vs) :=
  append_iff.2 ⟨hus, hvs.mono (by omega)⟩

/-- The height after a start of the tokens. -/
theorem nonneg_of_append (h : Rising k (us ++ vs)) : 0 ≤ k + height us :=
  (append_iff.1 h).2.nonneg

theorem nonneg_height (h : Rising k ts) : 0 ≤ k + height ts :=
  nonneg_of_append (by rwa [List.append_nil])

end Rising

namespace Balanced

variable {t lb rb : Token} {ts us vs : List Token}

theorem nil : Balanced [] :=
  ⟨Int.le_refl 0, rfl⟩

theorem cons (hl : t.kind ≠ .lbrace) (hr : t.kind ≠ .rbrace) (h : Balanced ts) :
    Balanced (t :: ts) :=
  ⟨h.rising.cons hr, by rw [height_cons, Kind.rise_of_ne hl hr, h.height_eq]; rfl⟩

theorem append (hus : Balanced us) (hvs : Balanced vs) : Balanced (us ++ vs) := by
  refine ⟨hus.rising.append (Int.le_of_eq hus.height_eq.symm) hvs.rising, ?_⟩
  rw [height_append, hus.height_eq, hvs.height_eq]
  rfl

/-- Balanced tokens between braces. -/
theorem block (hl : lb.kind = .lbrace) (h : Balanced ts) (hr : rb.kind = .rbrace) :
    Balanced (lb :: (ts ++ [rb])) := by
  constructor
  · refine ⟨Int.le_refl 0, ?_⟩
    rw [Rising.append_iff, hl]
    refine ⟨h.rising.mono (by decide), ?_⟩
    rw [h.height_eq]
    exact ⟨by decide, by rw [hr]; decide⟩
  · simp [h.height_eq, hl, hr, Kind.rise]

/-- Among balanced tokens, the tokens after an opening brace close it. -/
theorem not_rising (h : Balanced (us ++ lb :: vs)) (hl : lb.kind = .lbrace) : ¬ Rising 0 vs := by
  intro hvs
  have hbefore := h.rising.nonneg_of_append
  have hafter := hvs.nonneg_height
  have hall := h.height_eq
  rw [height_append, height_cons, hl] at hall
  simp only [Kind.rise] at hall
  omega

/-- What is left after balanced tokens is balanced if all is. -/
theorem right (h : Balanced (us ++ vs)) (hus : height us = 0) : Balanced vs := by
  have hrising := (Rising.append_iff.1 h.rising).2
  have hheight := h.height_eq
  rw [hus] at hrising
  rw [height_append, hus] at hheight
  exact ⟨hrising, by omega⟩

end Balanced

/-- The last token opens a block. -/
def EndsOpen (ts : List Token) : Prop :=
  ∃ t, ts.getLast? = some t ∧ t.kind = .lbrace

theorem endsOpen_append {us vs : List Token} :
    EndsOpen (us ++ vs) ↔ EndsOpen vs ∨ vs = [] ∧ EndsOpen us := by
  unfold EndsOpen
  cases vs with
  | nil => simp
  | cons v vs =>
      obtain ⟨w, hw⟩ : ∃ w, (v :: vs).getLast? = some w := ⟨_, List.getLast?_cons⟩
      simp [hw]

theorem endsOpen_cons {u : Token} {vs : List Token} :
    EndsOpen (u :: vs) ↔ EndsOpen vs ∨ vs = [] ∧ u.kind = .lbrace := by
  rw [show u :: vs = [u] ++ vs from rfl, endsOpen_append]
  simp [EndsOpen]

/-- What is balanced does not end with an opening brace. -/
theorem Balanced.not_endsOpen {ts : List Token} (h : Balanced ts) : ¬ EndsOpen ts := by
  rintro ⟨t, ht, hk⟩
  obtain ⟨us, rfl⟩ := List.getLast?_eq_some_iff.1 ht
  have hbefore := h.rising.nonneg_of_append
  have hall := h.height_eq
  simp only [height_append, height_cons, height_nil, hk, Kind.rise] at hall
  omega

theorem EndsOpen.of_append {us vs : List Token} (h : EndsOpen (us ++ vs)) (hus : Balanced us) :
    EndsOpen vs :=
  (endsOpen_append.1 h).resolve_right fun hopen => hus.not_endsOpen hopen.2

/-! ## Phrases -/

/-- An operator is no brace, no semicolon and no stray character. -/
theorem Kind.not_mem_of_mem_operators {l : Level} {k : Kind} (h : k ∈ l.operators) :
    k ∉ [lbrace, rbrace, semicolon, illegal] := by
  revert k
  cases l <;> decide

theorem Kind.not_mem_of_mem_unary {k : Kind} (h : k ∈ [bang, minus]) :
    k ∉ [lbrace, rbrace, semicolon, illegal] := by
  revert k
  decide

/-- A token that is no brace stays out of the balance. -/
theorem Balanced.cons_of_not_mem {t : Token} {ts : List Token} (h : Balanced ts)
    (ht : t.kind ∉ [Kind.lbrace, .rbrace, .semicolon, .illegal]) : Balanced (t :: ts) := by
  simp only [List.mem_cons, not_or] at ht
  exact h.cons ht.1 ht.2.1

/-- The braces of a phrase are balanced. -/
theorem Derives.balanced {n : Nat} {p : Phrase} {ts : List Token} (h : Derives n p ts) :
    Balanced ts := by
  have plain {t : Token} {us : List Token} (k : Kind) (hk : t.kind = k) (h : Balanced us)
      (hc : k ∉ [Kind.lbrace, .rbrace, .semicolon, .illegal] := by decide) :
      Balanced (t :: us) := h.cons_of_not_mem (by rwa [hk])
  induction h with
  | identifier hk | integer hk | boolean hk | parameter hk => exact plain _ hk .nil
  | group hl _ hr ih => exact plain _ hl (ih.append (plain _ hr .nil))
  | conditional hk hl _ hr _ ihc ihb => exact plain _ hk (plain _ hl (ihc.append (plain _ hr ihb)))
  | alternative hk hl _ hr _ he _ ihc iha ihb =>
      exact plain _ hk (plain _ hl (ihc.append (plain _ hr (iha.append (plain _ he ihb)))))
  | function hk _ _ ihp ihb => exact plain _ hk (ihp.append ihb)
  | call _ _ ihf iha => exact ihf.append iha
  | unary ho _ ih => exact ih.cons_of_not_mem (Kind.not_mem_of_mem_unary ho)
  | binary _ ho _ iha ihb =>
      exact iha.append (ihb.cons_of_not_mem (Kind.not_mem_of_mem_operators ho))
  | tighter _ ih | bare _ ih | expression _ ih => exact ih
  | firstItem hl _ ih => exact plain _ hl ih
  | nextItem _ hc _ ihs ih => exact ihs.append (plain _ hc ih)
  | noItems hl hr => exact plain _ hl (plain _ hr .nil)
  | items _ hr ih => exact ih.append (plain _ hr .nil)
  | ended _ hs ih => exact ih.append (.cons (by simp [hs]) (by simp [hs]) .nil)
  | block hl _ hr ih => exact .block hl ih hr
  | binding hk hn he _ ih => exact plain _ hk (plain _ hn (plain _ he ih))
  | returning hk _ ih => exact plain _ hk ih
  | noStatements => exact .nil
  | statements _ _ _ ihs ihss => exact ihs.append ihss

/-! ## Where reading breaks off -/

/-- Forms that are parts of a statement. -/
def Phrase.IsPart : Phrase → Prop
  | .value .. | .statement .. | .statements _ => False
  | _ => True

/-- What can be taken before reading breaks off inside `k` blocks: single tokens, parts of a statement
that are complete, and blocks that are begun, with statements before the one that is not complete.
`ended` has to hold if the end is right after the brace that begins a block. -/
inductive Takes (ended : Prop) : Nat → List Token → Prop
  | nil : Takes ended 0 []
  | token {k : Nat} {t : Token} {x : List Token} :
      t.kind ∉ [Kind.lbrace, .rbrace, .semicolon, .illegal] → Takes ended k x →
      Takes ended k (t :: x)
  | phrase {k n : Nat} {p : Phrase} {us x : List Token} : Derives n p us → p.IsPart →
      Takes ended k x → Takes ended k (us ++ x)
  | block {k n : Nat} {lb : Token} {ss : List Node} {us x : List Token} : lb.kind = .lbrace →
      Derives n (.statements ss) us → Takes ended k x → (us ++ x = [] → ended) →
      Takes ended (k + 1) (lb :: (us ++ x))

namespace Takes

variable {ended : Prop} {k : Nat} {t : Token} {x : List Token}

theorem cons (h : Takes ended k x) {c : Kind} (ht : t.kind = c)
    (hc : c ∉ [Kind.lbrace, .rbrace, .semicolon, .illegal] := by decide) :
    Takes ended k (t :: x) :=
  .token (by rwa [ht]) h

/-- The count of open blocks is the height of what has been taken. -/
theorem fits (h : Takes ended k x) : Rising 0 x ∧ height x = k := by
  induction h with
  | nil => exact ⟨Int.le_refl 0, rfl⟩
  | @token k t x ht _ ih =>
      simp only [List.mem_cons, List.not_mem_nil, or_false, not_or] at ht
      refine ⟨ih.1.cons ht.2.1, ?_⟩
      rw [height_cons, Kind.rise_of_ne ht.1 ht.2.1, ih.2, Int.zero_add]
  | phrase hd _ _ ih =>
      have hus := hd.balanced
      refine ⟨hus.rising.append (Int.le_of_eq hus.height_eq.symm) ih.1, ?_⟩
      rw [height_append, hus.height_eq, ih.2, Int.zero_add]
  | block hl hd _ _ ih =>
      have hus := hd.balanced
      constructor
      · refine .cons (by simp [hl]) ?_
        exact hus.rising.append (Int.le_of_eq hus.height_eq.symm) ih.1
      · rw [height_cons, height_append, hl, hus.height_eq, ih.2]
        simp only [Kind.rise]
        omega

/-- Before the last token that has been taken one more block is open, if it closes one. -/
theorem height_of_concat {y : List Token} {u : Token} (h : Takes ended k (y ++ [u]))
    (hu : u.kind ≠ .lbrace) : height y = if u.kind = .rbrace then (k : Int) + 1 else k := by
  have hheight := h.fits.2
  rw [height_append, height_cons, height_nil, Int.add_zero] at hheight
  by_cases hr : u.kind = .rbrace
  · rw [hr] at hheight
    rw [if_pos hr]
    simp only [Kind.rise] at hheight
    omega
  · rw [Kind.rise_of_ne hu hr, Int.add_zero] at hheight
    rw [if_neg hr, hheight]

/-- What has been taken ends with an opening brace at the very end only. -/
theorem of_endsOpen (h : Takes ended k x) (hx : EndsOpen x) : ended := by
  induction h with
  | nil => simp [EndsOpen] at hx
  | token ht _ ih =>
      refine ih ((endsOpen_cons.1 hx).resolve_right fun hopen => ht ?_)
      simp [hopen.2]
  | phrase hd _ _ ih => exact ih (hx.of_append hd.balanced)
  | block _ hd _ hend ih =>
      rcases endsOpen_cons.1 hx with hx | ⟨hnil, -⟩
      · exact ih (hx.of_append hd.balanced)
      · exact hend hnil

end Takes

/-- Reading breaks off on a token, or before the end of input. -/
def Halt.Ended (h : Halt) : Prop :=
  h.onto = true ∨ h.token.kind = .eof

/-- What has been taken for a goal.  For the statements of a block it comes in two parts: those that
are complete, and the one that is not. -/
def Goal.Taken (n : Nat) (x : List Token) (h : Halt) : Goal → Prop
  | .statements _ => ∃ ss us y, x = us ++ y ∧ Derives n (.statements ss) us ∧
      Takes h.Ended h.depth y ∧ (us ++ y = [] → h.Ended)
  | _ => Takes h.Ended h.depth x

namespace Breaks

variable {n : Nat} {g : Goal} {x : List Token} {h : Halt}

theorem taken (hb : Breaks n g x h) : g.Taken n x h := by
  have part {m k : Nat} {l : Level} {y : Ending} {e : Node} {us vs : List Token} {ended : Prop}
      (he : Derives m (.expression l y e) us) (hvs : Takes ended k vs) : Takes ended k (us ++ vs) :=
    .phrase he trivial hvs
  induction hb with
  | token | missing | nested | noOperand | malformed | outOfRange => exact .nil
  | next _ ih | parameter _ ih | argument _ ih | noBody _ ih | body _ ih | bare _ _ _ ih => exact ih
  | unary ho _ ih => exact .token (Kind.not_mem_of_mem_unary ho) ih
  | group hk _ ih | noCondition hk _ ih | noParameters hk _ ih | parameters hk _ ih
  | noName hk _ ih | returning hk _ ih | firstItem hk _ _ ih => exact ih.cons hk
  | unclosed hk he =>
      rw [← List.append_nil (_ :: _)]
      exact (part he .nil).cons hk
  | condition hk hl _ ih => exact (ih.cons hl).cons hk
  | noAssign hk hn _ ih => exact (ih.cons hn).cons hk
  | binding hk hn he _ ih => exact ((ih.cons he).cons hn).cons hk
  | openCondition hk hl he _ _ ih => exact ((part he ih).cons hl).cons hk
  | consequence hk hl he hr _ ih => exact ((part he (ih.cons hr)).cons hl).cons hk
  | alternative hk hl he hr ha hels _ ih =>
      exact ((part he ((Takes.phrase ha trivial (ih.cons hels)).cons hr)).cons hl).cons hk
  | function hk hp _ ih => exact (Takes.phrase hp trivial ih).cons hk
  | right hd ho _ _ ih => exact part hd (.token (Kind.not_mem_of_mem_operators ho) ih)
  | arguments hd _ _ ih => exact part hd ih
  | openItems hd _ _ _ ih => exact .phrase hd trivial ih
  | nextItem hd hc _ ih => exact .phrase hd trivial (ih.cons hc)
  | block hl _ ih =>
      obtain ⟨ss, us, y, rfl, hss, hy, hend⟩ := ih
      exact .block hl hss hy hend
  | unfinished ht => exact ⟨[], [], [], rfl, .noStatements, .nil, fun _ => .inr ht⟩
  | statement _ hb ih =>
      refine ⟨[], [], _, rfl, .noStatements, ih, fun hnil => .inl ?_⟩
      exact (hb.ne_nil_or_onto trivial).resolve_left fun hne => hne hnil
  | @laterStatement n lb y s us x h hs hcloses _ ih =>
      obtain ⟨ss, vs, z, rfl, hss, hz, -⟩ := ih
      refine ⟨s :: ss, us ++ vs, z, by rw [List.append_assoc], .statements hs hss ?_, hz, ?_⟩
      · intro hy t ht
        have hfirst : h.first (vs ++ z) = t := by
          cases vs with
          | nil => simp at ht
          | cons v vs => exact Option.some.inj ht
        rw [hfirst] at hcloses
        exact (hcloses hy).2.1
      · simp [hs.ne_nil]

end Breaks

end FnLang
