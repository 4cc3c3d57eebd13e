/- # FnLang.Proofs.Breakdown — where reading breaks off.

The other half of the grammar.  `Breaks n g x h` says that to read `g` takes the tokens `x` and then
cannot take one more: `h.token` is that token, the end of the input included, and `h.error` is what
is reported for it.  A rule stands for a place where the parser can fail, or leads there through a
phrase that is begun but not finished.  The tokens before the place are phrases of the grammar, so a
breakdown is a derivation with its end missing.

The parser looks at a token before it moves on to it or after that, and `h.onto` tells which.  It
matters for recovery, which starts on the token under the cursor, and for the count of open blocks,
`h.depth`.  The statement of this module is `Breaks.broken`: where reading breaks off the parser
stops, in the place and with the error that the relation names.  A larger limit on nesting changes
nothing about it, unless the limit itself is the cause (`Breaks.mono`).
-/
import FnLang.Proofs.Completeness

namespace FnLang

open Parse

/-! ## Halts -/

/-- How reading breaks off. -/
structure Halt where
  /-- The token that cannot be taken. -/
  token : Token
  /-- Whether the cursor stands on that token, or before it. -/
  onto : Bool
  error : ParseError
  /-- How many blocks are open. -/
  depth : Nat

namespace Halt

/-- To stop on a token. -/
def on (t : Token) (cause : Cause) (token : Option Token) : Halt :=
  { token := t, onto := true, error := ⟨cause, token⟩, depth := 0 }

/-- To stop before a token. -/
def before (t : Token) (cause : Cause) (token : Token) : Halt :=
  { token := t, onto := false, error := ⟨cause, some token⟩, depth := 0 }

/-- The same inside one more block. -/
def deeper (h : Halt) : Halt :=
  { h with depth := h.depth + 1 }

/-- The first of the tokens taken, or the one that cannot be taken if there are none. -/
def first (h : Halt) (x : List Token) : Token :=
  x.head?.getD h.token

@[simp] theorem first_nil (h : Halt) : h.first [] = h.token := rfl

@[simp] theorem first_cons (h : Halt) (t : Token) (x : List Token) : h.first (t :: x) = t := rfl

@[simp] theorem first_deeper (h : Halt) (x : List Token) : h.deeper.first x = h.first x := rfl

/-- The cursor `d` is where reading stops that starts at `c` and takes the tokens `x`. -/
def Reached (h : Halt) (c : Cursor) (x : List Token) (d : Cursor) : Prop :=
  if h.onto then c.Spans (x ++ [h.token]) d else c.Spans x d ∧ d.lookahead = h.token

namespace Reached

variable {h : Halt} {c d : Cursor} {t : Token} {x us : List Token}

theorem current_eq (hr : h.Reached c (t :: x) d) : c.current = t := by
  unfold Reached at hr
  split at hr
  · exact hr.head_eq
  · exact hr.1.head_eq

theorem current_eq_first (hr : h.Reached c x d) (hx : x ≠ [] ∨ h.onto = true) :
    c.current = h.first x := by
  cases x with
  | nil =>
      rw [Reached, if_pos (hx.resolve_left fun hne => hne rfl)] at hr
      exact hr.head_eq
  | cons t x => exact hr.current_eq

/-- Reading moves on if a token is taken, and also to stop on the first one. -/
theorem exists_advance? (hr : h.Reached c (t :: x) d) (hx : x ≠ [] ∨ h.onto = true) :
    ∃ e, c.advance? = some e ∧ h.Reached e x d := by
  unfold Reached at hr ⊢
  split at hr
  · next ho =>
      obtain ⟨e, he, hs⟩ := hr.exists_advance? (by simp)
      exact ⟨e, he, by rwa [if_pos ho]⟩
  · next ho =>
      obtain ⟨e, he, hs⟩ := hr.1.exists_advance? (hx.resolve_right ho)
      exact ⟨e, he, by rw [if_neg ho]; exact ⟨hs, hr.2⟩⟩

/-- Reading goes through the last token of a phrase at the start of what is taken. -/
theorem after (hr : h.Reached c (us ++ x) d) (hus : us ≠ []) :
    ∃ e, c.Spans us e ∧ h.Reached e (e.current :: x) d := by
  have split {ys : List Token} (hs : c.Spans (us ++ ys) d) (hys : ys ≠ []) :
      ∃ e, c.Spans us e ∧ e.Spans (e.current :: ys) d := by
    obtain ⟨e, f, hue, hf, hs⟩ := hs.split hus hys
    exact ⟨e, hue, .step hf hs⟩
  unfold Reached at hr ⊢
  split at hr
  · next ho =>
      rw [List.append_assoc] at hr
      obtain ⟨e, hue, hs⟩ := split hr (by simp)
      exact ⟨e, hue, by rwa [if_pos ho]⟩
  · next ho =>
      obtain ⟨hs, hahead⟩ := hr
      by_cases hx : x = []
      · subst hx
        rw [List.append_nil] at hs
        exact ⟨d, hs, by rw [if_neg ho]; exact ⟨.here d, hahead⟩⟩
      · obtain ⟨e, hue, hs⟩ := split hs hx
        exact ⟨e, hue, by rw [if_neg ho]; exact ⟨hs, hahead⟩⟩

/-- The token after the first one is the first of the rest. -/
theorem lookahead_eq (hr : h.Reached c (t :: x) d) : c.lookahead = h.first x := by
  by_cases hx : x ≠ [] ∨ h.onto = true
  · obtain ⟨e, he, hr'⟩ := hr.exists_advance? hx
    rw [← Cursor.current_of_advance? he]
    cases x with
    | nil =>
        rw [Reached, if_pos (hx.resolve_left fun hne => hne rfl)] at hr'
        exact hr'.head_eq
    | cons u us => exact hr'.current_eq
  · rw [not_or, Decidable.not_not] at hx
    obtain ⟨rfl, ho⟩ := hx
    rw [Reached, if_neg ho] at hr
    obtain ⟨hs, hahead⟩ := hr
    obtain rfl := hs.eq_of_singleton
    exact hahead

/-- A token that reading stops on is one of those it starts with. -/
theorem token_mem (hr : h.Reached c x d) (ho : h.onto = true) :
    h.token ∈ c.current :: c.upcoming := by
  rw [Reached, if_pos ho] at hr
  rw [hr.tokens_eq]
  simp

theorem depth_eq (hr : h.Reached c x d) : d.depth = c.depth := by
  unfold Reached at hr
  split at hr
  · exact hr.depth_eq
  · exact hr.1.depth_eq

theorem suffix (hr : h.Reached c x d) : d.current :: d.upcoming <:+ c.current :: c.upcoming := by
  unfold Reached at hr
  split at hr
  · exact hr.suffix
  · exact hr.1.suffix

theorem deepen (hr : h.Reached c x d) (k : Nat) : h.Reached (c.deepen k) x (d.deepen k) := by
  unfold Reached at hr ⊢
  split at hr
  · next ho => rw [if_pos ho]; exact hr.deepen k
  · next ho => rw [if_neg ho]; exact ⟨hr.1.deepen k, hr.2⟩

end Reached

end Halt

/-! ## Breakdowns -/

/-- What is being read.  The first four are read from the token before them on. -/
inductive Goal where
  /-- A token of a kind. -/
  | token (k : Kind)
  /-- An expression of a level, which must not be missing. -/
  | next (l : Level) (wanted : Wanted)
  /-- An item of a list. -/
  | item (i : Item) (wanted : Wanted)
  /-- A block. -/
  | body
  /-- The statements of a block and the brace that ends it; `opening` began the block. -/
  | statements (opening : Token)
  | expression (l : Level)
  | items (i : Item)
  | block
  | statement

/-- `Breaks n g x h`: to read `g`, with expressions at most `n` deep inside one another, takes the
tokens `x` and breaks off as `h` tells. -/
inductive Breaks : Nat → Goal → List Token → Halt → Prop
  | token {n : Nat} {k : Kind} {t : Token} : t.kind ≠ k →
      Breaks n (.token k) [] (.before t (.unexpected k t.kind) t)
  | missing {n : Nat} {l : Level} {w : Wanted} {t : Token} : t.kind = .eof →
      Breaks n (.next l w) [] (.before t (.missing w) t)
  | next {n : Nat} {l : Level} {w : Wanted} {x : List Token} {h : Halt} :
      Breaks n (.expression l) x h → Breaks n (.next l w) x h
  | parameter {n : Nat} {w : Wanted} {x : List Token} {h : Halt} :
      Breaks n (.token .ident) x h → Breaks n (.item .parameter w) x h
  | argument {n : Nat} {w : Wanted} {x : List Token} {h : Halt} :
      Breaks n (.next .equality w) x h → Breaks n (.item .argument w) x h
  | noBody {n : Nat} {x : List Token} {h : Halt} :
      Breaks n (.token .lbrace) x h → Breaks n .body x h
  | body {n : Nat} {x : List Token} {h : Halt} : Breaks n .block x h → Breaks n .body x h
  -- operands
  | nested {l : Level} {t : Token} :
      Breaks 0 (.expression l) [] (.on t .nestedTooDeeply (some t))
  | noOperand {n : Nat} {l : Level} {t : Token} : t.kind ∉ Kind.operandStarts →
      Breaks (n + 1) (.expression l) [] (.on t (.noExpression t.kind t.text) (some t))
  | malformed {n : Nat} {l : Level} {t : Token} : t.kind = .int →
      Text.Numeral.readLiteral t.text = .error .malformed →
      Breaks (n + 1) (.expression l) [] (.on t (.malformedInteger t.text) (some t))
  | outOfRange {n : Nat} {l : Level} {t : Token} : t.kind = .int →
      Text.Numeral.readLiteral t.text = .error .outOfRange →
      Breaks (n + 1) (.expression l) [] (.on t (.integerOutOfRange t.text) (some t))
  | unary {n : Nat} {l : Level} {op : Token} {x : List Token} {h : Halt} :
      op.kind ∈ [Kind.bang, Kind.minus] → Breaks n (.next .unary (.operand op.text)) x h →
      Breaks (n + 1) (.expression l) (op :: x) h
  | group {n : Nat} {l : Level} {lp : Token} {x : List Token} {h : Halt} : lp.kind = .lparen →
      Breaks n (.next .equality .groupBody) x h → Breaks (n + 1) (.expression l) (lp :: x) h
  | unclosed {n : Nat} {l : Level} {lp t : Token} {y : Ending} {e : Node} {us : List Token} :
      lp.kind = .lparen → Derives n (.expression .equality y e) us → t.kind ≠ .rparen →
      y.Allows .equality t.kind →
      Breaks (n + 1) (.expression l) (lp :: us)
        (.before t (.unclosedGroup lp.line lp.column t.kind) t)
  | noCondition {n : Nat} {l : Level} {kw : Token} {x : List Token} {h : Halt} :
      kw.kind = .ifWord → Breaks n (.token .lparen) x h → Breaks (n + 1) (.expression l) (kw :: x) h
  | condition {n : Nat} {l : Level} {kw lp : Token} {x : List Token} {h : Halt} :
      kw.kind = .ifWord → lp.kind = .lparen → Breaks n (.next .equality .condition) x h →
      Breaks (n + 1) (.expression l) (kw :: lp :: x) h
  | openCondition {n : Nat} {l : Level} {kw lp : Token} {y : Ending} {e : Node}
      {us x : List Token} {h : Halt} :
      kw.kind = .ifWord → lp.kind = .lparen → Derives n (.expression .equality y e) us →
      y.Allows .equality h.token.kind → Breaks n (.token .rparen) x h →
      Breaks (n + 1) (.expression l) (kw :: lp :: (us ++ x)) h
  | consequence {n : Nat} {l : Level} {kw lp rp : Token} {y : Ending} {e : Node}
      {us x : List Token} {h : Halt} :
      kw.kind = .ifWord → lp.kind = .lparen → Derives n (.expression .equality y e) us →
      rp.kind = .rparen → Breaks n .body x h →
      Breaks (n + 1) (.expression l) (kw :: lp :: (us ++ rp :: x)) h
  | alternative {n : Nat} {l : Level} {kw lp rp els : Token} {y : Ending} {e b : Node}
      {us vs x : List Token} {h : Halt} :
      kw.kind = .ifWord → lp.kind = .lparen → Derives n (.expression .equality y e) us →
      rp.kind = .rparen → Derives n (.block b) vs → els.kind = .elseWord → Breaks n .body x h →
      Breaks (n + 1) (.expression l) (kw :: lp :: (us ++ rp :: (vs ++ els :: x))) h
  | noParameters {n : Nat} {l : Level} {kw : Token} {x : List Token} {h : Halt} :
      kw.kind = .fnWord → Breaks n (.token .lparen) x h → Breaks (n + 1) (.expression l) (kw :: x) h
  | parameters {n : Nat} {l : Level} {kw : Token} {x : List Token} {h : Halt} :
      kw.kind = .fnWord → Breaks n (.items .parameter) x h →
      Breaks (n + 1) (.expression l) (kw :: x) h
  | function {n : Nat} {l : Level} {kw : Token} {ps : List Node} {us x : List Token} {h : Halt} :
      kw.kind = .fnWord → Derives n (.items .parameter ps) us → Breaks n .body x h →
      Breaks (n + 1) (.expression l) (kw :: (us ++ x)) h
  -- what follows an operand
  | right {n : Nat} {l m : Level} {y : Ending} {e : Node} {op : Token} {us x : List Token}
      {h : Halt} :
      Derives (n + 1) (.expression m y e) us → op.kind ∈ m.operators →
      m.continuations ⊆ l.continuations → Breaks n (.next m.tighter (.operand op.text)) x h →
      Breaks (n + 1) (.expression l) (us ++ op :: x) h
  | arguments {n : Nat} {l : Level} {y : Ending} {e : Node} {us x : List Token} {h : Halt} :
      Derives (n + 1) (.expression .application y e) us →
      Level.application.continuations ⊆ l.continuations → Breaks n (.items .argument) x h →
      Breaks (n + 1) (.expression l) (us ++ x) h
  -- lists
  | firstItem {n : Nat} {i : Item} {lp : Token} {x : List Token} {h : Halt} : lp.kind = .lparen →
      (h.first x).kind ≠ .rparen → Breaks n (.item i .firstArgument) x h →
      Breaks n (.items i) (lp :: x) h
  | nextItem {n : Nat} {i : Item} {y : Ending} {es : List Node} {comma : Token}
      {us x : List Token} {h : Halt} :
      Derives n (.started i y es) us → comma.kind = .comma →
      Breaks n (.item i .nextArgument) x h → Breaks n (.items i) (us ++ comma :: x) h
  | openItems {n : Nat} {i : Item} {y : Ending} {es : List Node} {us x : List Token} {h : Halt} :
      Derives n (.started i y es) us → i.Allows y h.token.kind → h.token.kind ≠ .comma →
      Breaks n (.token .rparen) x h → Breaks n (.items i) (us ++ x) h
  -- blocks and statements
  | block {n : Nat} {lb : Token} {x : List Token} {h : Halt} : lb.kind = .lbrace →
      Breaks n (.statements lb) x h → Breaks n .block (lb :: x) h.deeper
  | unfinished {n : Nat} {lb t : Token} : t.kind = .eof →
      Breaks n (.statements lb) [] (.before t .unclosedBlock lb)
  | statement {n : Nat} {lb : Token} {x : List Token} {h : Halt} : (h.first x).kind ≠ .rbrace →
      Breaks n .statement x h → Breaks n (.statements lb) x h
  | laterStatement {n : Nat} {lb : Token} {y : Ending} {s : Node} {us x : List Token} {h : Halt} :
      Derives n (.statement y s) us → y.Closes (h.first x).kind → Breaks n (.statements lb) x h →
      Breaks n (.statements lb) (us ++ x) h
  | noName {n : Nat} {kw : Token} {x : List Token} {h : Halt} : kw.kind = .letWord →
      Breaks n (.token .ident) x h → Breaks n .statement (kw :: x) h
  | noAssign {n : Nat} {kw name : Token} {x : List Token} {h : Halt} : kw.kind = .letWord →
      name.kind = .ident → Breaks n (.token .assign) x h → Breaks n .statement (kw :: name :: x) h
  | binding {n : Nat} {kw name eq : Token} {x : List Token} {h : Halt} : kw.kind = .letWord →
      name.kind = .ident → eq.kind = .assign → Breaks n (.next .equality .letValue) x h →
      Breaks n .statement (kw :: name :: eq :: x) h
  | returning {n : Nat} {kw : Token} {x : List Token} {h : Halt} : kw.kind = .returnWord →
      Breaks n (.next .equality .returnValue) x h → Breaks n .statement (kw :: x) h
  | bare {n : Nat} {x : List Token} {h : Halt} : (h.first x).kind ≠ .letWord →
      (h.first x).kind ≠ .returnWord → Breaks n (.expression .equality) x h →
      Breaks n .statement x h

/-! ## What the parser does where reading breaks off -/

/-- The parser of a goal takes the tokens `x`, stops as `h` tells and reports the error. -/
def Goal.Broken (n : Nat) (x : List Token) (h : Halt) : Goal → Prop
  | .token k => ∀ {c d : Cursor} {t : Token}, h.Reached c (t :: x) d →
      (expect k).run c = (.error h.error, d.deepen h.depth)
  | .next l w => ∀ {c d : Cursor} {t : Token} {least : Int}, h.Reached c (t :: x) d →
      l.Reads least → (advanceTo w >>= fun _ => Parse.expression n least).run c =
        (.error h.error, d.deepen h.depth)
  | .item i w => ∀ {c d : Cursor} {t : Token}, h.Reached c (t :: x) d →
      (i.parse (Parse.expression n) w).run c = (.error h.error, d.deepen h.depth)
  | .body => ∀ {c d : Cursor} {t : Token}, h.Reached c (t :: x) d →
      (expect .lbrace >>= fun _ => Parse.block (Parse.expression n)).run c =
        (.error h.error, d.deepen h.depth)
  | .statements opening => ∀ {c d : Cursor} {t : Token}, h.Reached c (t :: x) d →
      statementsAfter (Parse.expression n) opening c = (.error h.error, d.deepen h.depth)
  | .expression l => ∀ {c d : Cursor} {least : Int}, h.Reached c x d → l.Reads least →
      (Parse.expression n least).run c = (.error h.error, d.deepen h.depth)
  | .items i => ∀ {c d : Cursor}, h.Reached c x d →
      (i.list (Parse.expression n)).run c = (.error h.error, d.deepen h.depth)
  | .block => ∀ {c d : Cursor}, h.Reached c x d →
      (Parse.block (Parse.expression n)).run c = (.error h.error, d.deepen h.depth)
  | .statement => ∀ {c d : Cursor}, h.Reached c x d →
      (Parse.statement (Parse.expression n)).run c = (.error h.error, d.deepen h.depth)

/-- Goals that are read from their first token on. -/
def Goal.IsPhrase : Goal → Prop
  | .expression _ | .items _ | .block | .statement => True
  | _ => False

namespace Breaks

variable {n : Nat} {g : Goal} {x : List Token} {h : Halt} {c d : Cursor} {t : Token}

/-- A phrase that is begun has a first token. -/
theorem ne_nil_or_onto (hb : Breaks n g x h) (hg : g.IsPhrase) : x ≠ [] ∨ h.onto = true := by
  induction hb with
  | nested | noOperand | malformed | outOfRange => exact .inr rfl
  | right | nextItem => exact .inl (by simp)
  | arguments hd _ _ => exact .inl (by simp [hd.ne_nil])
  | openItems hd => exact .inl (by simp [hd.ne_nil])
  | bare _ _ _ ih => exact ih trivial
  | unary | group | unclosed | noCondition | condition | openCondition | consequence | alternative
  | noParameters | parameters | function | firstItem | block | noName | noAssign | binding
  | returning => exact .inl (by simp)
  | _ => exact hg.elim

open Cursor

theorem lookahead_eq {k : Kind} (hb : Breaks n (.token k) x h) (hr : h.Reached c (t :: x) d) :
    c.lookahead = h.token := by
  cases hb with
  | token => exact hr.lookahead_eq

/-- A list that is begun has its opening parenthesis. -/
theorem exists_lparen {i : Item} (hb : Breaks n (.items i) x h) :
    ∃ lp us, x = lp :: us ∧ lp.kind = .lparen := by
  cases hb with
  | firstItem hl => exact ⟨_, _, rfl, hl⟩
  | nextItem hd | openItems hd =>
      obtain ⟨lp, _, _, rfl, hl, -⟩ := hd.exists_started
      exact ⟨lp, _, rfl, hl⟩

theorem items_ne_nil {i : Item} (hb : Breaks n (.items i) x h) : x ≠ [] := by
  obtain ⟨_, _, rfl, _⟩ := hb.exists_lparen
  simp

theorem kind_lparen {i : Item} (hb : Breaks n (.items i) x h) (hr : h.Reached c x d) :
    c.current.kind = .lparen := by
  obtain ⟨lp, us, rfl, hl⟩ := hb.exists_lparen
  rw [hr.current_eq, hl]

end Breaks

/-! ### Every rule

What the parser stops at is closed under the rules, one lemma a rule.  In each of them the parser
moves over the phrases that are complete, which are read as derived (`Derives.read`), and the error
comes up through every parser that waits for the one that fails. -/

namespace Goal.Broken

open Cursor

section

variable {n : Nat} {i : Item} {l m : Level} {w : Wanted} {y : Ending} {a e s : Node}
  {es : List Node} {kw t lb lp rp op : Token} {us vs x : List Token} {h : Halt}

/-! #### What is read from the token before it on -/

theorem token (n : Nat) {k : Kind} (ht : t.kind ≠ k) :
    (Goal.token k).Broken n [] (.before t (.unexpected k t.kind) t) := by
  intro c d u hr
  obtain ⟨hs, hahead⟩ := hr
  obtain rfl := hs.eq_of_singleton
  rw [run_expect_of_ne (by rw [hahead]; exact ht), hahead]
  rfl

theorem missing (ht : t.kind = .eof) :
    (Goal.next l w).Broken n [] (.before t (.missing w) t) := by
  intro c d u least hr _
  obtain ⟨hs, hahead⟩ := hr
  obtain rfl := hs.eq_of_singleton
  have hnone : d.advance? = none := advance?_eq_none_iff.2 (by rw [hahead]; exact ht)
  rw [run_bind_error _ (run_advanceTo_of_none hnone), hahead]
  rfl

theorem next (hb : Breaks n (.expression l) x h) (ih : (Goal.expression l).Broken n x h) :
    (Goal.next l w).Broken n x h := by
  intro c d t least hr hl
  obtain ⟨e, he, hr⟩ := hr.exists_advance? (hb.ne_nil_or_onto trivial)
  rw [run_bind_ok _ (run_advanceTo_of_some he)]
  exact ih hr hl

theorem parameter (ih : (Goal.token .ident).Broken n x h) :
    (Goal.item .parameter w).Broken n x h := by
  intro c d t hr
  show Parse.parameter.run c = _
  unfold Parse.parameter
  exact run_bind_error _ (ih hr)

theorem argument (ih : (Goal.next .equality w).Broken n x h) :
    (Goal.item .argument w).Broken n x h := by
  intro c d t hr
  exact ih hr Level.equality_reads

theorem noBody (ih : (Goal.token .lbrace).Broken n x h) : Goal.body.Broken n x h := by
  intro c d t hr
  exact run_bind_error _ (ih hr)

theorem body (hb : Breaks n .block x h) (ih : Goal.block.Broken n x h) :
    Goal.body.Broken n x h := by
  intro c d t hr
  obtain ⟨e, he, hr⟩ := hr.exists_advance? (hb.ne_nil_or_onto trivial)
  have hk : e.current.kind = .lbrace := by
    cases hb with
    | block hl => rw [hr.current_eq, hl]
  rw [run_bind_ok _ (run_expect_of_eq he hk)]
  exact ih hr

/-! #### Operands -/

theorem nested : (Goal.expression l).Broken 0 [] (.on t .nestedTooDeeply (some t)) := by
  intro c d least hr _
  obtain rfl := Spans.eq_of_singleton hr
  rw [run_expression_zero, Spans.head_eq hr]
  rfl

/-- An expression breaks off where its first operand does. -/
theorem of_operand (hrun : ∀ {c d : Cursor}, h.Reached c x d →
      (operand (Parse.expression n)).run c = (.error h.error, d.deepen h.depth)) :
    (Goal.expression l).Broken (n + 1) x h := by
  intro c d least hr _
  exact run_bind_error _ (hrun hr)

/-- An expression breaks off on a first token that is no operand. -/
theorem of_token {cause : Cause} {u : Option Token} (hrun : ∀ {c : Cursor}, c.current = t →
      (operand (Parse.expression n)).run c = (.error ⟨cause, u⟩, c)) :
    (Goal.expression l).Broken (n + 1) [] (.on t cause u) := by
  apply of_operand
  intro c d hr
  obtain rfl := Spans.eq_of_singleton hr
  exact hrun (Spans.head_eq hr)

theorem noOperand (ht : t.kind ∉ Kind.operandStarts) :
    (Goal.expression l).Broken (n + 1) [] (.on t (.noExpression t.kind t.text) (some t)) := by
  apply of_token
  rintro c rfl
  exact run_operand_of_not_mem ht

theorem malformed (ht : t.kind = .int)
    (hv : Text.Numeral.readLiteral t.text = .error .malformed) :
    (Goal.expression l).Broken (n + 1) [] (.on t (.malformedInteger t.text) (some t)) := by
  apply of_token
  rintro c rfl
  rw [run_operand_of_int ht]
  unfold integerLiteral
  rw [run_bind_ok _ (run_current c)]
  simp only [hv]
  rfl

theorem outOfRange (ht : t.kind = .int)
    (hv : Text.Numeral.readLiteral t.text = .error .outOfRange) :
    (Goal.expression l).Broken (n + 1) [] (.on t (.integerOutOfRange t.text) (some t)) := by
  apply of_token
  rintro c rfl
  rw [run_operand_of_int ht]
  unfold integerLiteral
  rw [run_bind_ok _ (run_current c)]
  simp only [hv]
  rfl

theorem unary (ho : op.kind ∈ [Kind.bang, Kind.minus])
    (ih : (Goal.next .unary (.operand op.text)).Broken n x h) :
    (Goal.expression l).Broken (n + 1) (op :: x) h := by
  apply of_operand
  intro c d hr
  obtain rfl := hr.current_eq
  rw [run_operand_of_unary ho]
  unfold Parse.unary
  rw [run_bind_ok _ (run_current c)]
  exact run_bind_bind_error _ (ih hr Level.unary_reads)

theorem group (hl : lp.kind = .lparen) (ih : (Goal.next .equality .groupBody).Broken n x h) :
    (Goal.expression l).Broken (n + 1) (lp :: x) h := by
  apply of_operand
  intro c d hr
  obtain rfl := hr.current_eq
  rw [run_operand_of_lparen hl]
  unfold Parse.group
  rw [run_bind_ok _ (run_current c)]
  exact run_bind_bind_error _ (ih hr Level.equality_reads)

theorem unclosed (hl : lp.kind = .lparen) (he : Derives n (.expression .equality y e) us)
    (ht : t.kind ≠ .rparen) (hallows : y.Allows .equality t.kind) :
    (Goal.expression l).Broken (n + 1) (lp :: us)
      (.before t (.unclosedGroup lp.line lp.column t.kind) t) := by
  apply of_operand
  intro c d hr
  obtain ⟨hs, hahead⟩ := hr
  obtain rfl := hs.head_eq
  obtain ⟨c₁, hc₁, hs⟩ := hs.exists_advance? (he.ne_nil (by simp))
  have hrun := he.run_expression hs Level.equality_reads (by rw [hahead]; exact hallows)
  rw [run_operand_of_lparen hl]
  unfold Parse.group
  rw [run_bind_ok _ (run_current c), run_bind_ok _ (run_advanceTo_of_some hc₁),
    run_bind_ok _ hrun, run_bind_ok _ (run_lookahead d),
    run_bind_ok _ (run_accept_of_ne (by rw [hahead]; exact ht)), hahead]
  rfl

theorem noCondition (hk : kw.kind = .ifWord) (ih : (Goal.token .lparen).Broken n x h) :
    (Goal.expression l).Broken (n + 1) (kw :: x) h := by
  apply of_operand
  intro c d hr
  obtain rfl := hr.current_eq
  rw [run_operand_of_ifWord hk]
  unfold Parse.conditional
  exact run_bind_error _ (ih hr)

theorem condition (hk : kw.kind = .ifWord) (hl : lp.kind = .lparen)
    (ih : (Goal.next .equality .condition).Broken n x h) :
    (Goal.expression l).Broken (n + 1) (kw :: lp :: x) h := by
  apply of_operand
  intro c d hr
  obtain rfl := hr.current_eq
  obtain ⟨c₁, hc₁, hr⟩ := hr.exists_advance? (.inl (by simp))
  obtain rfl := hr.current_eq
  rw [run_operand_of_ifWord hk]
  unfold Parse.conditional
  rw [run_bind_ok _ (run_expect_of_eq hc₁ hl)]
  exact run_bind_bind_error _ (ih hr Level.equality_reads)

/-- A conditional whose condition is read breaks off where its branches do. -/
theorem of_branches (hk : kw.kind = .ifWord) (hl : lp.kind = .lparen)
    (he : Derives n (.expression .equality y e) us)
    (hallows : ∀ {c d : Cursor}, h.Reached c (c.current :: x) d →
      y.Allows .equality c.lookahead.kind)
    (hrun : ∀ {c d : Cursor}, h.Reached c (c.current :: x) d →
      (branches (Parse.expression n) e).run c = (.error h.error, d.deepen h.depth)) :
    (Goal.expression l).Broken (n + 1) (kw :: lp :: (us ++ x)) h := by
  apply of_operand
  intro c d hr
  have hr : h.Reached c ((kw :: lp :: us) ++ x) d := hr
  obtain ⟨d₁, hs, hr⟩ := hr.after (by simp)
  rw [Phrase.Read.run_condition hk hl he he.read hs (hallows hr)]
  exact hrun hr

theorem openCondition (hk : kw.kind = .ifWord) (hl : lp.kind = .lparen)
    (he : Derives n (.expression .equality y e) us) (hallows : y.Allows .equality h.token.kind)
    (hb : Breaks n (.token .rparen) x h) (ih : (Goal.token .rparen).Broken n x h) :
    (Goal.expression l).Broken (n + 1) (kw :: lp :: (us ++ x)) h := by
  apply of_branches hk hl he
  · intro c d hr
    rw [hb.lookahead_eq hr]
    exact hallows
  · intro c d hr
    exact run_bind_error _ (ih hr)

/-- A closing parenthesis ends the condition before it. -/
theorem allows_of_rparen {c d : Cursor} (hr : h.Reached c (t :: rp :: x) d)
    (hrp : rp.kind = .rparen) : y.Allows l c.lookahead.kind := by
  rw [hr.lookahead_eq, Halt.first_cons, hrp]
  exact Ending.allows_of_mem (by decide)

theorem consequence (hk : kw.kind = .ifWord) (hl : lp.kind = .lparen)
    (he : Derives n (.expression .equality y e) us) (hrp : rp.kind = .rparen)
    (ih : Goal.body.Broken n x h) :
    (Goal.expression l).Broken (n + 1) (kw :: lp :: (us ++ rp :: x)) h := by
  apply of_branches hk hl he (fun hr => allows_of_rparen hr hrp)
  intro c d hr
  obtain ⟨c₁, hc₁, hr⟩ := hr.exists_advance? (.inl (by simp))
  obtain rfl := hr.current_eq
  unfold Parse.branches
  rw [run_bind_ok _ (run_expect_of_eq hc₁ hrp)]
  exact run_bind_bind_error _ (ih hr)

theorem alternative {els : Token} (hk : kw.kind = .ifWord) (hl : lp.kind = .lparen)
    (he : Derives n (.expression .equality y e) us) (hrp : rp.kind = .rparen)
    (ha : Derives n (.block a) vs) (hels : els.kind = .elseWord) (ih : Goal.body.Broken n x h) :
    (Goal.expression l).Broken (n + 1) (kw :: lp :: (us ++ rp :: (vs ++ els :: x))) h := by
  apply of_branches hk hl he (fun hr => allows_of_rparen hr hrp)
  intro c d hr
  have hr : h.Reached c ((c.current :: rp :: vs) ++ els :: x) d := hr
  obtain ⟨d₁, hs, hr⟩ := hr.after (by simp)
  obtain ⟨c₂, hc₂, hr⟩ := hr.exists_advance? (.inl (by simp))
  obtain rfl := hr.current_eq
  rw [Phrase.Read.run_consequence hrp ha ha.read hs]
  unfold Parse.alternative
  rw [run_bind_ok _ (run_accept_of_eq hc₂ hels)]
  exact run_bind_bind_error _ (ih hr)

theorem noParameters (hk : kw.kind = .fnWord) (ih : (Goal.token .lparen).Broken n x h) :
    (Goal.expression l).Broken (n + 1) (kw :: x) h := by
  apply of_operand
  intro c d hr
  obtain rfl := hr.current_eq
  rw [run_operand_of_fnWord hk]
  unfold Parse.function
  exact run_bind_error _ (ih hr)

theorem parameters (hk : kw.kind = .fnWord) (hb : Breaks n (.items .parameter) x h)
    (ih : (Goal.items .parameter).Broken n x h) :
    (Goal.expression l).Broken (n + 1) (kw :: x) h := by
  apply of_operand
  intro c d hr
  obtain rfl := hr.current_eq
  obtain ⟨c₁, hc₁, hr⟩ := hr.exists_advance? (.inl hb.items_ne_nil)
  have hrun : Parse.parameters.run c₁ = _ := ih hr
  rw [run_operand_of_fnWord hk]
  unfold Parse.function
  rw [run_bind_ok _ (run_expect_of_eq hc₁ (hb.kind_lparen hr))]
  exact run_bind_error _ hrun

theorem function (hk : kw.kind = .fnWord) (hp : Derives n (.items .parameter es) us)
    (ih : Goal.body.Broken n x h) : (Goal.expression l).Broken (n + 1) (kw :: (us ++ x)) h := by
  apply of_operand
  intro c d hr
  obtain rfl := hr.current_eq
  obtain ⟨c₁, hc₁, hr⟩ := hr.exists_advance? (.inl (by simp [hp.ne_nil]))
  obtain ⟨d₁, hs, hr⟩ := hr.after (hp.ne_nil (by simp))
  have hrun : Parse.parameters.run c₁ = _ := hp.read hs
  rw [run_operand_of_fnWord hk]
  unfold Parse.function
  rw [run_bind_ok _ (run_expect_of_eq hc₁ (hp.kind_lparen hs)), run_bind_ok _ hrun]
  exact run_bind_bind_error _ (ih hr)

/-! #### What follows an operand -/

theorem right (hd : Derives (n + 1) (.expression m y e) us) (ho : op.kind ∈ m.operators)
    (hm : m.continuations ⊆ l.continuations)
    (ih : (Goal.next m.tighter (.operand op.text)).Broken n x h) :
    (Goal.expression l).Broken (n + 1) (us ++ op :: x) h := by
  intro c d least hr hl
  obtain ⟨d₁, hs, hr⟩ := hr.after (hd.ne_nil (by simp))
  obtain ⟨c₂, hc₂, hr⟩ := hr.exists_advance? (.inl (by simp))
  obtain rfl := hr.current_eq
  have hahead : d₁.lookahead.kind ∈ m.operators := by rwa [← current_of_advance? hc₂]
  rw [hd.read hs hl hm (Ending.allows_of_mem_operators hahead)]
  apply run_foldAhead_of_error (climb_step_of_mem_operators hl hahead hm) hc₂
  unfold Parse.binary
  rw [run_bind_ok _ (run_current c₂)]
  exact run_bind_bind_error _ (ih hr (Level.tighter_reads ho))

theorem arguments (hd : Derives (n + 1) (.expression .application y e) us)
    (hm : Level.application.continuations ⊆ l.continuations)
    (hb : Breaks n (.items .argument) x h) (ih : (Goal.items .argument).Broken n x h) :
    (Goal.expression l).Broken (n + 1) (us ++ x) h := by
  intro c d least hr hl
  obtain ⟨d₁, hs, hr⟩ := hr.after (hd.ne_nil (by simp))
  obtain ⟨c₂, hc₂, hr⟩ := hr.exists_advance? (.inl hb.items_ne_nil)
  have hahead : d₁.lookahead.kind = .lparen := by
    rw [← current_of_advance? hc₂, hb.kind_lparen hr]
  have hrun : (Parse.arguments (Parse.expression n)).run c₂ = _ := ih hr
  rw [hd.read hs hl hm ⟨by simp [Level.tighter, Level.continuations], by simp [hahead]⟩]
  apply run_foldAhead_of_error (climb_step_of_eq_lparen hl hahead hm) hc₂
  exact run_bind_error _ hrun

/-! #### Lists -/

theorem firstItem (hfirst : (h.first x).kind ≠ .rparen)
    (ih : (Goal.item i .firstArgument).Broken n x h) : (Goal.items i).Broken n (lp :: x) h := by
  intro c d hr
  exact Item.run_list_of_error (by rw [hr.lookahead_eq]; exact hfirst) (ih hr)

theorem nextItem {comma : Token} (hd : Derives n (.started i y es) us) (hk : comma.kind = .comma)
    (ih : (Goal.item i .nextArgument).Broken n x h) :
    (Goal.items i).Broken n (us ++ comma :: x) h := by
  intro c d hr
  obtain ⟨d₁, hs, hr⟩ := hr.after (hd.ne_nil (by simp))
  obtain ⟨c₂, hc₂, hr⟩ := hr.exists_advance? (.inl (by simp))
  obtain rfl := hr.current_eq
  have hahead : d₁.lookahead.kind = .comma := by rw [← current_of_advance? hc₂, hk]
  rw [hd.read hs (by rw [hahead]; exact Item.allows_of_mem (by decide))]
  exact Item.run_rest_of_error hc₂ hk (ih hr)

theorem openItems (hd : Derives n (.started i y es) us) (hallows : i.Allows y h.token.kind)
    (hne : h.token.kind ≠ .comma) (hb : Breaks n (.token .rparen) x h)
    (ih : (Goal.token .rparen).Broken n x h) : (Goal.items i).Broken n (us ++ x) h := by
  intro c d hr
  obtain ⟨d₁, hs, hr⟩ := hr.after (hd.ne_nil (by simp))
  have hahead := hb.lookahead_eq hr
  rw [hd.read hs (by rw [hahead]; exact hallows)]
  exact Item.run_rest_of_ne (by rw [hahead]; exact hne) (ih hr)

/-! #### Blocks and statements -/

theorem block (ih : (Goal.statements lb).Broken n x h) : Goal.block.Broken n (lb :: x) h.deeper := by
  intro c d hr
  have hr : h.Reached c (lb :: x) d := hr
  rw [run_block, hr.current_eq, ih (hr.deepen 1), deepen_deepen, Nat.add_comm]
  rfl

theorem unfinished (ht : t.kind = .eof) :
    (Goal.statements lb).Broken n [] (.before t .unclosedBlock lb) := by
  intro c d u hr
  obtain ⟨hs, hahead⟩ := hr
  obtain rfl := hs.eq_of_singleton
  rw [statementsAfter_of_none (advance?_eq_none_iff.2 (by rw [hahead]; exact ht))]
  rfl

theorem statement (hfirst : (h.first x).kind ≠ .rbrace) (hb : Breaks n .statement x h)
    (ih : Goal.statement.Broken n x h) : (Goal.statements lb).Broken n x h := by
  intro c d t hr
  have hbegun := hb.ne_nil_or_onto trivial
  obtain ⟨e, he, hr⟩ := hr.exists_advance? hbegun
  rw [statementsAfter_of_some he]
  exact run_itemsUntil_of_error (by rw [hr.current_eq_first hbegun]; exact hfirst) (ih hr)

theorem laterStatement (hs : Derives n (.statement y s) us) (hcloses : y.Closes (h.first x).kind)
    (ih : (Goal.statements lb).Broken n x h) : (Goal.statements lb).Broken n (us ++ x) h := by
  intro c d t hr
  obtain ⟨e, he, hr⟩ := hr.exists_advance? (.inl (by simp [hs.ne_nil]))
  obtain ⟨d₁, hspan, hr⟩ := hr.after (hs.ne_nil (by simp))
  have hrun := hs.read hspan (by rw [hr.lookahead_eq]; exact hcloses)
  have hrest := ih hr
  rw [statementsAfter_of_some he]
  -- the input may end after the statement, and then there is none to go on with
  cases hd₁ : d₁.advance? with
  | none =>
      rw [statementsAfter_of_none hd₁] at hrest
      rw [run_itemsUntil_of_none (hs.kind_ne_rbrace hspan) hrun hd₁, hrest]
  | some e₂ =>
      rw [statementsAfter_of_some hd₁] at hrest
      rw [run_itemsUntil_of_some (hs.kind_ne_rbrace hspan) hrun hd₁, hrest]

/-- A value breaks off where its expression does. -/
theorem run_value_of_error {expression : Int → Parse Node} {c d : Cursor} {err : ParseError}
    (hrun : (advanceTo w >>= fun _ => expression Priority.lowest.level).run c = (.error err, d)) :
    (advanceTo w >>= fun _ => value expression).run c = (.error err, d) := by
  unfold Parse.value
  exact run_bind_bind_error _ hrun

theorem noName (hk : kw.kind = .letWord) (ih : (Goal.token .ident).Broken n x h) :
    Goal.statement.Broken n (kw :: x) h := by
  intro c d hr
  obtain rfl := hr.current_eq
  rw [run_statement_of_letWord hk]
  unfold Parse.binding
  exact run_bind_error _ (ih hr)

theorem noAssign {name : Token} (hk : kw.kind = .letWord) (hn : name.kind = .ident)
    (ih : (Goal.token .assign).Broken n x h) : Goal.statement.Broken n (kw :: name :: x) h := by
  intro c d hr
  obtain rfl := hr.current_eq
  obtain ⟨c₁, hc₁, hr⟩ := hr.exists_advance? (.inl (by simp))
  obtain rfl := hr.current_eq
  rw [run_statement_of_letWord hk]
  unfold Parse.binding
  rw [run_bind_ok _ (run_expect_of_eq hc₁ hn)]
  exact run_bind_error _ (ih hr)

theorem binding {name eq : Token} (hk : kw.kind = .letWord) (hn : name.kind = .ident)
    (heq : eq.kind = .assign) (ih : (Goal.next .equality .letValue).Broken n x h) :
    Goal.statement.Broken n (kw :: name :: eq :: x) h := by
  intro c d hr
  obtain rfl := hr.current_eq
  obtain ⟨c₁, hc₁, hr⟩ := hr.exists_advance? (.inl (by simp))
  obtain rfl := hr.current_eq
  obtain ⟨c₂, hc₂, hr⟩ := hr.exists_advance? (.inl (by simp))
  obtain rfl := hr.current_eq
  have hvalue := run_value_of_error (ih hr Level.equality_reads)
  rw [run_statement_of_letWord hk]
  unfold Parse.binding
  rw [run_bind_ok _ (run_expect_of_eq hc₁ hn), run_bind_ok _ (run_expect_of_eq hc₂ heq)]
  exact run_bind_bind_error _ hvalue

theorem returning (hk : kw.kind = .returnWord)
    (ih : (Goal.next .equality .returnValue).Broken n x h) :
    Goal.statement.Broken n (kw :: x) h := by
  intro c d hr
  obtain rfl := hr.current_eq
  have hvalue := run_value_of_error (ih hr Level.equality_reads)
  rw [run_statement_of_returnWord hk]
  unfold Parse.returning
  exact run_bind_bind_error _ hvalue

theorem bare (hl : (h.first x).kind ≠ .letWord) (hret : (h.first x).kind ≠ .returnWord)
    (hb : Breaks n (.expression .equality) x h) (ih : (Goal.expression .equality).Broken n x h) :
    Goal.statement.Broken n x h := by
  intro c d hr
  have hfirst := hr.current_eq_first (hb.ne_nil_or_onto trivial)
  rw [run_statement_of_ne (by rw [hfirst]; exact hl) (by rw [hfirst]; exact hret)]
  unfold Parse.expressionStatement Parse.value
  exact run_bind_error _ (run_bind_error _ (ih hr Level.equality_reads))

end

end Goal.Broken

namespace Breaks

variable {n m : Nat} {g : Goal} {x : List Token} {h : Halt}

/-- Where reading breaks off the parser stops, with the error that is named. -/
theorem broken (hb : Breaks n g x h) : g.Broken n x h := by
  induction hb with
  | @token n _ _ ht => exact Goal.Broken.token n ht
  | missing ht => exact Goal.Broken.missing ht
  | next hb ih => exact Goal.Broken.next hb ih
  | parameter _ ih => exact Goal.Broken.parameter ih
  | argument _ ih => exact Goal.Broken.argument ih
  | noBody _ ih => exact Goal.Broken.noBody ih
  | body hb ih => exact Goal.Broken.body hb ih
  | nested => exact Goal.Broken.nested
  | noOperand ht => exact Goal.Broken.noOperand ht
  | malformed ht hv => exact Goal.Broken.malformed ht hv
  | outOfRange ht hv => exact Goal.Broken.outOfRange ht hv
  | unary ho _ ih => exact Goal.Broken.unary ho ih
  | group hl _ ih => exact Goal.Broken.group hl ih
  | unclosed hl he ht hallows => exact Goal.Broken.unclosed hl he ht hallows
  | noCondition hk _ ih => exact Goal.Broken.noCondition hk ih
  | condition hk hl _ ih => exact Goal.Broken.condition hk hl ih
  | openCondition hk hl he hallows hb ih => exact Goal.Broken.openCondition hk hl he hallows hb ih
  | consequence hk hl he hrp _ ih => exact Goal.Broken.consequence hk hl he hrp ih
  | alternative hk hl he hrp ha hels _ ih => exact Goal.Broken.alternative hk hl he hrp ha hels ih
  | noParameters hk _ ih => exact Goal.Broken.noParameters hk ih
  | parameters hk hb ih => exact Goal.Broken.parameters hk hb ih
  | function hk hp _ ih => exact Goal.Broken.function hk hp ih
  | right hd ho hm _ ih => exact Goal.Broken.right hd ho hm ih
  | arguments hd hm hb ih => exact Goal.Broken.arguments hd hm hb ih
  | firstItem _ hfirst _ ih => exact Goal.Broken.firstItem hfirst ih
  | nextItem hd hk _ ih => exact Goal.Broken.nextItem hd hk ih
  | openItems hd hallows hne hb ih => exact Goal.Broken.openItems hd hallows hne hb ih
  | block _ _ ih => exact Goal.Broken.block ih
  | unfinished ht => exact Goal.Broken.unfinished ht
  | statement hfirst hb ih => exact Goal.Broken.statement hfirst hb ih
  | laterStatement hs hcloses _ ih => exact Goal.Broken.laterStatement hs hcloses ih
  | noName hk _ ih => exact Goal.Broken.noName hk ih
  | noAssign hk hn _ ih => exact Goal.Broken.noAssign hk hn ih
  | binding hk hn heq _ ih => exact Goal.Broken.binding hk hn heq ih
  | returning hk _ ih => exact Goal.Broken.returning hk ih
  | bare hl hret hb ih => exact Goal.Broken.bare hl hret hb ih

/-! ## Larger limits -/

theorem succ (hb : Breaks n g x h) (hcause : h.error.cause ≠ .nestedTooDeeply) :
    Breaks (n + 1) g x h := by
  induction hb with
  | token ht => exact .token ht
  | missing ht => exact .missing ht
  | next _ ih => exact .next (ih hcause)
  | parameter _ ih => exact .parameter (ih hcause)
  | argument _ ih => exact .argument (ih hcause)
  | noBody _ ih => exact .noBody (ih hcause)
  | body _ ih => exact .body (ih hcause)
  | nested => exact absurd rfl hcause
  | noOperand ht => exact .noOperand ht
  | malformed hk ht => exact .malformed hk ht
  | outOfRange hk ht => exact .outOfRange hk ht
  | unary ho _ ih => exact .unary ho (ih hcause)
  | group hl _ ih => exact .group hl (ih hcause)
  | unclosed hl hd ht ha => exact .unclosed hl hd.succ ht ha
  | noCondition hk _ ih => exact .noCondition hk (ih hcause)
  | condition hk hl _ ih => exact .condition hk hl (ih hcause)
  | openCondition hk hl hd ha _ ih => exact .openCondition hk hl hd.succ ha (ih hcause)
  | consequence hk hl hd hr _ ih => exact .consequence hk hl hd.succ hr (ih hcause)
  | alternative hk hl hd hr hb' he _ ih =>
      exact .alternative hk hl hd.succ hr hb'.succ he (ih hcause)
  | noParameters hk _ ih => exact .noParameters hk (ih hcause)
  | parameters hk _ ih => exact .parameters hk (ih hcause)
  | function hk hd _ ih => exact .function hk hd.succ (ih hcause)
  | right hd ho hm _ ih => exact .right hd.succ ho hm (ih hcause)
  | arguments hd hm _ ih => exact .arguments hd.succ hm (ih hcause)
  | firstItem hl hf _ ih => exact .firstItem hl hf (ih hcause)
  | nextItem hd hc _ ih => exact .nextItem hd.succ hc (ih hcause)
  | openItems hd ha hne _ ih => exact .openItems hd.succ ha hne (ih hcause)
  | block hl _ ih => exact .block hl (ih hcause)
  | unfinished ht => exact .unfinished ht
  | statement hf _ ih => exact .statement hf (ih hcause)
  | laterStatement hd hc _ ih => exact .laterStatement hd.succ hc (ih hcause)
  | noName hk _ ih => exact .noName hk (ih hcause)
  | noAssign hk hn _ ih => exact .noAssign hk hn (ih hcause)
  | binding hk hn he _ ih => exact .binding hk hn he (ih hcause)
  | returning hk _ ih => exact .returning hk (ih hcause)
  | bare hl hr _ ih => exact .bare hl hr (ih hcause)

/-- A larger limit on nesting changes nothing, unless the limit is the cause. -/
theorem mono (hb : Breaks n g x h) (hcause : h.error.cause ≠ .nestedTooDeeply) (hnm : n ≤ m) :
    Breaks m g x h := by
  induction hnm with
  | refl => exact hb
  | step _ ih => exact ih.succ hcause

end Breaks

end FnLang
