/- # FnLang.Proofs.Grammar — the grammar of the language, over tokens.

The grammar is stratified: an expression of a level is built from operands of the next tighter level,
so precedence and grouping to the left are in the shape of the rules and no rule mentions a number.
`Derives n p ts` says that the tokens `ts` have the form `p`; a form carries the tree it builds
(`Phrase`).  The index `n` bounds how deeply expressions stand inside one another; a text has a
derivation if it has one for some bound (`Derives.mono`).

Two points need care.  A statement may end with a semicolon or without one, and one without may not
be followed by a token that would go on with its expression.  And a list in parentheses is read from
the left (`Phrase.started` is a list that is not closed yet), which is how a reader meets it.
-/
import FnLang.Node
import FnLang.Token
import FnLang.Text.Numeral

namespace FnLang

/-- The kinds of tokens that the rules ask for. -/
def Kind.terminals : List Kind :=
  [ident, int, boolean, ifWord, elseWord, fnWord, letWord, returnWord, lparen, rparen, lbrace, rbrace,
   comma, semicolon, assign, bang, plus, minus, asterisk, slash, eq, notEq, lt, gt]

/-! ## Levels -/

/-- The levels of expressions, loosest first. -/
inductive Level where
  | equality | comparison | sum | product | unary | application | primary
  deriving DecidableEq, Repr

namespace Level

/-- The level of the operands of a level. -/
def tighter : Level → Level
  | equality => comparison
  | comparison => sum
  | sum => product
  | product => unary
  | unary => application
  | application | primary => primary

/-- The operators that stand between two operands at a level. -/
def operators : Level → List Kind
  | equality => [.eq, .notEq]
  | comparison => [.lt, .gt]
  | sum => [.plus, .minus]
  | product => [.asterisk, .slash]
  | unary | application | primary => []

/-- The kinds that go on with an expression of a level: its own operators, those of the tighter
levels, and the parenthesis that opens an argument list. -/
def continuations : Level → List Kind
  | equality => operators equality ++ operators comparison ++ operators sum ++ operators product ++
      [.lparen]
  | comparison => operators comparison ++ operators sum ++ operators product ++ [.lparen]
  | sum => operators sum ++ operators product ++ [.lparen]
  | product => operators product ++ [.lparen]
  | unary | application => [.lparen]
  | primary => []

/-- What goes on with an operand goes on with the expression it is an operand of. -/
theorem continuations_tighter_subset (l : Level) :
    l.tighter.continuations ⊆ l.continuations := by
  cases l <;> decide

/-- Nothing goes on with an expression that does not go on with an expression of the loosest
level. -/
theorem continuations_subset_equality (l : Level) :
    l.continuations ⊆ equality.continuations := by
  cases l <;> decide

theorem mem_continuations_of_mem_operators {l : Level} {k : Kind} (h : k ∈ l.operators) :
    k ∈ l.continuations := by
  revert k
  cases l <;> decide

/-- An operator of a level does not go on with an operand of that level. -/
theorem not_mem_continuations_tighter {l : Level} {k : Kind} (h : k ∈ l.operators) :
    k ∉ l.tighter.continuations := by
  revert k
  cases l <;> decide

/-- The levels that have operators. -/
def ofOperators : List Level :=
  [equality, comparison, sum, product]

theorem operators_subset_terminals (l : Level) : l.operators ⊆ Kind.terminals := by
  cases l <;> decide

/-- What goes on with an expression begins an argument list, or is an operator of its level or of a
tighter one. -/
theorem eq_lparen_or_mem_operators {l : Level} {k : Kind} (h : k ∈ l.continuations) :
    k = .lparen ∨ ∃ m ∈ ofOperators, k ∈ m.operators ∧ m.continuations ⊆ l.continuations := by
  revert k
  cases l <;> decide

end Level

/-! ## Phrases -/

/-- How an expression or a statement ends.  No rule asks for one ending or another: it is noted
because an `else` after a conditional without one would belong to it. -/
inductive Ending where
  | plain
  | conditional
  | semicolon
  deriving DecidableEq, Repr

/-- What stands between the commas of a list in parentheses. -/
inductive Item where
  | parameter
  | argument
  deriving DecidableEq, Repr

/-- A form that tokens can have, with what it builds. -/
inductive Phrase where
  /-- An expression of a level. -/
  | expression (level : Level) (x : Ending) (e : Node)
  /-- The name of a parameter. -/
  | parameter (x : Ending) (e : Node)
  /-- A list in parentheses without the closing one, at least one item long. -/
  | started (item : Item) (x : Ending) (es : List Node)
  /-- A list in parentheses. -/
  | items (item : Item) (es : List Node)
  /-- Statements between braces. -/
  | block (b : Node)
  /-- An expression at the end of a statement, with a semicolon or without. -/
  | value (x : Ending) (e : Node)
  /-- A statement, with a semicolon or without. -/
  | statement (x : Ending) (s : Node)
  /-- Statements one after the other. -/
  | statements (ss : List Node)

/-- The form of an item. -/
def Item.phrase : Item → Ending → Node → Phrase
  | parameter => .parameter
  | argument => .expression .equality

/-! ## Derivations -/

/-- `Derives n p ts`: the tokens `ts` have the form `p`, with expressions at most `n` deep inside one
another. -/
inductive Derives : Nat → Phrase → List Token → Prop
  | identifier {n : Nat} {t : Token} : t.kind = .ident →
      Derives (n + 1) (.expression .primary .plain (.identifier t.text)) [t]
  | integer {n : Nat} {t : Token} {v : Int} : t.kind = .int →
      Text.Numeral.readLiteral t.text = .ok v →
      Derives (n + 1) (.expression .primary .plain (.integer v)) [t]
  | boolean {n : Nat} {t : Token} : t.kind = .boolean →
      Derives (n + 1) (.expression .primary .plain (.boolean (t.text == "true"))) [t]
  | group {n : Nat} {lp rp : Token} {x : Ending} {e : Node} {ts : List Token} :
      lp.kind = .lparen → Derives n (.expression .equality x e) ts → rp.kind = .rparen →
      Derives (n + 1) (.expression .primary .plain e) (lp :: (ts ++ [rp]))
  | conditional {n : Nat} {kw lp rp : Token} {x : Ending} {c b : Node} {us vs : List Token} :
      kw.kind = .ifWord → lp.kind = .lparen → Derives n (.expression .equality x c) us →
      rp.kind = .rparen → Derives n (.block b) vs →
      Derives (n + 1) (.expression .primary .conditional (.conditional c b none))
        (kw :: lp :: (us ++ rp :: vs))
  | alternative {n : Nat} {kw lp rp els : Token} {x : Ending} {c a b : Node}
      {us vs ws : List Token} :
      kw.kind = .ifWord → lp.kind = .lparen → Derives n (.expression .equality x c) us →
      rp.kind = .rparen → Derives n (.block a) vs → els.kind = .elseWord → Derives n (.block b) ws →
      Derives (n + 1) (.expression .primary .plain (.conditional c a (some b)))
        (kw :: lp :: (us ++ rp :: (vs ++ els :: ws)))
  | function {n : Nat} {kw : Token} {ps : List Node} {b : Node} {us vs : List Token} :
      kw.kind = .fnWord → Derives n (.items .parameter ps) us → Derives n (.block b) vs →
      Derives (n + 1) (.expression .primary .plain (.function ps b)) (kw :: (us ++ vs))
  | call {n : Nat} {x : Ending} {f : Node} {as : List Node} {us vs : List Token} :
      Derives (n + 1) (.expression .application x f) us → Derives n (.items .argument as) vs →
      Derives (n + 1) (.expression .application .plain (.call f as)) (us ++ vs)
  | unary {n : Nat} {op : Token} {x : Ending} {e : Node} {ts : List Token} :
      op.kind ∈ [Kind.bang, Kind.minus] → Derives n (.expression .unary x e) ts →
      Derives (n + 1) (.expression .unary x (.unary op.text e)) (op :: ts)
  | binary {n : Nat} {l : Level} {op : Token} {x y : Ending} {a b : Node} {us vs : List Token} :
      Derives (n + 1) (.expression l x a) us → op.kind ∈ l.operators →
      Derives n (.expression l.tighter y b) vs →
      Derives (n + 1) (.expression l y (.binary a op.text b)) (us ++ op :: vs)
  | tighter {n : Nat} {l : Level} {x : Ending} {e : Node} {ts : List Token} :
      Derives n (.expression l.tighter x e) ts → Derives n (.expression l x e) ts
  | parameter {n : Nat} {t : Token} : t.kind = .ident →
      Derives n (.parameter .plain (.identifier t.text)) [t]
  | firstItem {n : Nat} {i : Item} {lp : Token} {x : Ending} {e : Node} {us : List Token} :
      lp.kind = .lparen → Derives n (i.phrase x e) us → Derives n (.started i x [e]) (lp :: us)
  | nextItem {n : Nat} {i : Item} {comma : Token} {x y : Ending} {es : List Node} {e : Node}
      {us vs : List Token} :
      Derives n (.started i x es) us → comma.kind = .comma → Derives n (i.phrase y e) vs →
      Derives n (.started i y (es ++ [e])) (us ++ comma :: vs)
  | noItems {n : Nat} {i : Item} {lp rp : Token} : lp.kind = .lparen → rp.kind = .rparen →
      Derives n (.items i []) [lp, rp]
  | items {n : Nat} {i : Item} {rp : Token} {x : Ending} {es : List Node} {us : List Token} :
      Derives n (.started i x es) us → rp.kind = .rparen → Derives n (.items i es) (us ++ [rp])
  | block {n : Nat} {lb rb : Token} {ss : List Node} {ts : List Token} :
      lb.kind = .lbrace → Derives n (.statements ss) ts → rb.kind = .rbrace →
      Derives n (.block (.block ss)) (lb :: (ts ++ [rb]))
  | bare {n : Nat} {x : Ending} {e : Node} {ts : List Token} :
      Derives n (.expression .equality x e) ts → Derives n (.value x e) ts
  | ended {n : Nat} {x : Ending} {e : Node} {semi : Token} {ts : List Token} :
      Derives n (.expression .equality x e) ts → semi.kind = .semicolon →
      Derives n (.value .semicolon e) (ts ++ [semi])
  | binding {n : Nat} {kw name eq : Token} {x : Ending} {e : Node} {ts : List Token} :
      kw.kind = .letWord → name.kind = .ident → eq.kind = .assign → Derives n (.value x e) ts →
      Derives n (.statement x (.binding (.identifier name.text) e)) (kw :: name :: eq :: ts)
  | returning {n : Nat} {kw : Token} {x : Ending} {e : Node} {ts : List Token} :
      kw.kind = .returnWord → Derives n (.value x e) ts →
      Derives n (.statement x (.returning e)) (kw :: ts)
  | expression {n : Nat} {x : Ending} {e : Node} {ts : List Token} :
      Derives n (.value x e) ts → Derives n (.statement x (.expression e)) ts
  | noStatements {n : Nat} : Derives n (.statements []) []
  | statements {n : Nat} {x : Ending} {s : Node} {ss : List Node} {us vs : List Token} :
      Derives n (.statement x s) us → Derives n (.statements ss) vs →
      (x ≠ .semicolon → ∀ t ∈ vs.head?, t.kind ∉ Level.equality.continuations) →
      Derives n (.statements (s :: ss)) (us ++ vs)

namespace Derives

variable {n m : Nat} {p : Phrase} {l : Level} {x : Ending} {e : Node} {ts : List Token}

theorem succ (h : Derives n p ts) : Derives (n + 1) p ts := by
  induction h with
  | identifier ht => exact .identifier ht
  | integer ht hv => exact .integer ht hv
  | boolean ht => exact .boolean ht
  | group hl _ hr ih => exact .group hl ih hr
  | conditional hk hl _ hr _ ihc ihb => exact .conditional hk hl ihc hr ihb
  | alternative hk hl _ hr _ he _ ihc iha ihb => exact .alternative hk hl ihc hr iha he ihb
  | function hk _ _ ihp ihb => exact .function hk ihp ihb
  | call _ _ ihf iha => exact .call ihf iha
  | unary ho _ ih => exact .unary ho ih
  | binary _ ho _ iha ihb => exact .binary iha ho ihb
  | tighter _ ih => exact .tighter ih
  | parameter ht => exact .parameter ht
  | firstItem hl _ ih => exact .firstItem hl ih
  | nextItem _ hc _ ihs ih => exact .nextItem ihs hc ih
  | noItems hl hr => exact .noItems hl hr
  | items _ hr ih => exact .items ih hr
  | block hl _ hr ih => exact .block hl ih hr
  | bare _ ih => exact .bare ih
  | ended _ hs ih => exact .ended ih hs
  | binding hk hn he _ ih => exact .binding hk hn he ih
  | returning hk _ ih => exact .returning hk ih
  | expression _ ih => exact .expression ih
  | noStatements => exact .noStatements
  | statements _ _ hf ihs ihss => exact .statements ihs ihss hf

/-- A derivation within a bound is one within every larger bound. -/
theorem mono (h : Derives n p ts) (hnm : n ≤ m) : Derives m p ts := by
  induction hnm with
  | refl => exact h
  | step _ ih => exact ih.succ

/-- Only a list of statements can be empty. -/
theorem ne_nil (h : Derives n p ts) (hp : ∀ ss, p ≠ .statements ss) : ts ≠ [] := by
  induction h with
  | tighter _ ih => exact ih (by simp)
  | call _ _ ih _ => simp [ih (by simp)]
  | bare _ ih => exact ih (by simp)
  | expression _ ih => exact ih (by simp)
  | noStatements => exact absurd rfl (hp [])
  | statements => exact absurd rfl (hp _)
  | _ => simp

/-- A statement is a list of one. -/
theorem single {s : Node} (h : Derives n (.statement x s) ts) : Derives n (.statements [s]) ts := by
  rw [← List.append_nil ts]
  exact .statements h .noStatements (by simp)

/-- Every token of a derivation is of a kind that a rule asks for. -/
theorem kind_mem_terminals (h : Derives n p ts) : ∀ t ∈ ts, t.kind ∈ Kind.terminals := by
  have none : ∀ t ∈ ([] : List Token), t.kind ∈ Kind.terminals := by simp
  have plain {t : Token} {us : List Token} (k : Kind) (hk : t.kind = k)
      (hus : ∀ u ∈ us, u.kind ∈ Kind.terminals) (hc : k ∈ Kind.terminals := by decide) :
      ∀ u ∈ t :: us, u.kind ∈ Kind.terminals := List.forall_mem_cons.2 ⟨by rwa [hk], hus⟩
  have both {us vs : List Token} (hus : ∀ u ∈ us, u.kind ∈ Kind.terminals)
      (hvs : ∀ v ∈ vs, v.kind ∈ Kind.terminals) : ∀ t ∈ us ++ vs, t.kind ∈ Kind.terminals :=
    List.forall_mem_append.2 ⟨hus, hvs⟩
  induction h with
  | identifier hk | integer hk | boolean hk | parameter hk => exact plain _ hk none
  | group hl _ hr ih => exact plain _ hl (both ih (plain _ hr none))
  | conditional hk hl _ hr _ ihc ihb => exact plain _ hk (plain _ hl (both ihc (plain _ hr ihb)))
  | alternative hk hl _ hr _ he _ ihc iha ihb =>
      exact plain _ hk (plain _ hl (both ihc (plain _ hr (both iha (plain _ he ihb)))))
  | function hk _ _ ihp ihb => exact plain _ hk (both ihp ihb)
  | call _ _ ihf iha => exact both ihf iha
  | unary ho _ ih =>
      have hunary : [Kind.bang, Kind.minus] ⊆ Kind.terminals := by decide
      exact plain _ rfl ih (hunary ho)
  | binary _ ho _ iha ihb => exact both iha (plain _ rfl ihb (Level.operators_subset_terminals _ ho))
  | tighter _ ih | bare _ ih | expression _ ih => exact ih
  | firstItem hl _ ih => exact plain _ hl ih
  | nextItem _ hc _ ihs ih => exact both ihs (plain _ hc ih)
  | noItems hl hr => exact plain _ hl (plain _ hr none)
  | items _ hr ih => exact both ih (plain _ hr none)
  | ended _ hs ih => exact both ih (plain _ hs none)
  | block hl _ hr ih => exact plain _ hl (both ih (plain _ hr none))
  | binding hk hn he _ ih => exact plain _ hk (plain _ hn (plain _ he ih))
  | returning hk _ ih => exact plain _ hk ih
  | noStatements => exact none
  | statements _ _ _ ihs ihss => exact both ihs ihss

theorem kind_ne_of_not_mem {k : Kind} (h : Derives n p ts) (hk : k ∉ Kind.terminals) :
    ∀ t ∈ ts, t.kind ≠ k := by
  intro t ht heq
  apply hk
  rw [← heq]
  exact h.kind_mem_terminals t ht

end Derives

end FnLang
