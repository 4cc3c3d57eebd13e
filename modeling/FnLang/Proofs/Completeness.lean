/- # FnLang.Proofs.Completeness — what has a derivation is read, and read as derived.

The parser asks for numbers where the grammar has levels: an expression is read with every operator
that binds more strongly than a least priority.  `Level.Reads` is the bridge, and the parser's loop is
left in the statements: on a phrase of a level, the parser of expressions gets exactly as far as its
loop with the phrase's tree as the left operand (`Phrase.Read`).  Whether the loop then goes on is
decided by the token after the phrase, which for an operand is an operator of the level below.  With
that, the induction on the derivation follows its rules one by one (`Derives.read`).
-/
import FnLang.Proofs.Grammar
import FnLang.Proofs.Run

namespace FnLang

open Parse

/-! ## Least priorities and levels -/

namespace Level

/-- Taking in what binds more strongly than `least` reads expressions of the level. -/
def Reads (l : Level) (least : Int) : Prop :=
  ∀ k : Kind, least < k.priority.level ↔ k ∈ l.continuations

theorem reads_of_known {l : Level} {least : Int} (hl : 1 ≤ least)
    (h : ∀ k ∈ Kind.all, least < k.priority.level ↔ k ∈ l.continuations) : l.Reads least := by
  intro k
  cases k with
  | foreign name =>
      constructor
      · intro hk
        exact absurd hk (by simp only [Kind.priority, Priority.level]; omega)
      · intro hk
        cases l <;> simp [continuations, operators] at hk
  | _ => exact h _ (by decide)

theorem equality_reads : equality.Reads Priority.lowest.level :=
  reads_of_known (by decide) (by decide)

theorem unary_reads : unary.Reads Priority.unary.level :=
  reads_of_known (by decide) (by decide)

/-- An operator's own priority reads its right operand. -/
theorem tighter_reads {l : Level} {k : Kind} (h : k ∈ l.operators) :
    l.tighter.Reads k.priority.level := by
  cases l <;> simp only [operators, List.mem_cons, List.not_mem_nil, or_false] at h
  all_goals
    rcases h with rfl | rfl <;> exact reads_of_known (by decide) (by decide)

theorem continuation?_of_mem_operators {l : Level} {k : Kind} (h : k ∈ l.operators) :
    continuation? k = some .binary := by
  revert k
  cases l <;> decide

end Level

/-! ## Lists -/

namespace Item

variable (expression : Int → Parse Node)

/-- The parser of an item, from the token before it on; `wanted` says what is missing at the end of
the input. -/
def parse (wanted : Wanted) : Item → Parse Node
  | parameter => Parse.parameter
  | argument => Parse.argument expression wanted

/-- The parser of a list in parentheses. -/
def list (i : Item) : Parse (List Node) :=
  listed (i.parse expression .firstArgument) (i.parse expression .nextArgument)

/-- The step that goes on with a list after a comma; the items read so far come last first. -/
def step (i : Item) : Kind → Option (List Node → Parse (List Node)) :=
  fun k =>
    if k = .comma then some fun items => do return (← i.parse expression .nextArgument) :: items
    else none

/-- A list from the end of an item on. -/
def rest (i : Item) (items : List Node) : Parse (List Node) := do
  let items ← foldAhead (i.step expression) items
  let _ ← expect .rparen
  return items.reverse

theorem step_comma (i : Item) :
    i.step expression .comma =
      some fun items => do return (← i.parse expression .nextArgument) :: items := rfl

theorem step_of_ne (i : Item) {k : Kind} (h : k ≠ .comma) : i.step expression k = none := by
  rw [step, if_neg h]

end Item

/-! ## What may come next -/

/-- The kinds of token before which an expression of a level ends. -/
def Ending.Allows (x : Ending) (l : Level) (k : Kind) : Prop :=
  k ∉ l.continuations ∧ (x = .conditional → k ≠ .elseWord)

/-- The kinds of token before which a statement ends. -/
def Ending.Closes (x : Ending) (k : Kind) : Prop :=
  x ≠ .semicolon → k ≠ .semicolon ∧ x.Allows .equality k

/-- The kinds of token before which an item ends. -/
def Item.Allows : Item → Ending → Kind → Prop
  | parameter, _, _ => True
  | argument, x, k => x.Allows .equality k

theorem Ending.Allows.tighter {x : Ending} {l : Level} {k : Kind} (h : x.Allows l k) :
    x.Allows l.tighter k :=
  ⟨fun hk => h.1 (l.continuations_tighter_subset hk), h.2⟩

/-- An operator ends its left operand. -/
theorem Ending.allows_of_mem_operators {x : Ending} {l : Level} {k : Kind} (h : k ∈ l.operators) :
    x.Allows l.tighter k := by
  refine ⟨Level.not_mem_continuations_tighter h, ?_⟩
  rintro - rfl
  cases l <;> simp [Level.operators] at h

/-- What ends an expression: the punctuation after it, and the end of input. -/
def Kind.closers : List Kind :=
  [comma, semicolon, rbrace, eof, rparen]

theorem Kind.ne_of_mem {ks : List Kind} {k m : Kind} (h : k ∈ ks) (hm : m ∉ ks) : k ≠ m :=
  fun hk => hm (hk ▸ h)

theorem Ending.allows_of_mem {x : Ending} {l : Level} {k : Kind} (h : k ∈ Kind.closers) :
    x.Allows l k := by
  constructor
  · intro hk
    have hgo := l.continuations_subset_equality hk
    clear hk
    revert k
    decide
  · intro _
    exact Kind.ne_of_mem h (by decide)

theorem Item.allows_of_mem {i : Item} {x : Ending} {k : Kind}
    (h : k ∈ Kind.closers) : i.Allows x k := by
  cases i with
  | parameter => trivial
  | argument => exact Ending.allows_of_mem h

/-! ## What the parser does on a phrase -/

/-- The kinds an expression can start with. -/
def Kind.operandStarts : List Kind :=
  [ident, int, boolean, bang, minus, lparen, ifWord, fnWord]

/-- The kinds a statement can start with. -/
def Kind.statementStarts : List Kind :=
  letWord :: returnWord :: operandStarts

/-- The statements of a block, from the token before them on. -/
def Parse.statementsAfter (expression : Int → Parse Node) (opening : Token) (c : Cursor) :
    Except ParseError (List Node) × Cursor :=
  match c.advance? with
  | none => (.error ⟨.unclosedBlock, some opening⟩, c)
  | some d =>
      (itemsUntil .rbrace ⟨.unclosedBlock, some opening⟩ (statement expression)).run d

/-- The parser of a form reads the tokens `ts` as that form, whatever comes before and after, as long
as what comes after does not go on with it. -/
def Phrase.Read (n : Nat) (ts : List Token) : Phrase → Prop
  | .expression m x e => ∀ {c d : Cursor} {l : Level} {least : Int}, c.Spans ts d →
      l.Reads least → m.continuations ⊆ l.continuations → x.Allows m.tighter d.lookahead.kind →
      (Parse.expression n least).run c = (climb (Parse.expression (n - 1)) least e).run d
  | .parameter _ e => ∀ {b c d : Cursor}, b.advance? = some c → c.Spans ts d →
      Parse.parameter.run b = (.ok e, d)
  | .started i x es => ∀ {c d : Cursor}, c.Spans ts d → i.Allows x d.lookahead.kind →
      (i.list (Parse.expression n)).run c = (i.rest (Parse.expression n) es.reverse).run d
  | .items i es => ∀ {c d : Cursor}, c.Spans ts d →
      (i.list (Parse.expression n)).run c = (.ok es, d)
  | .block b => ∀ {c d : Cursor}, c.Spans ts d →
      (Parse.block (Parse.expression n)).run c = (.ok b, d)
  | .value x e => ∀ {c d : Cursor}, c.Spans ts d → x.Closes d.lookahead.kind →
      (Parse.value (Parse.expression n)).run c = (.ok e, d)
  | .statement x s => ∀ {c d : Cursor}, c.Spans ts d → x.Closes d.lookahead.kind →
      (Parse.statement (Parse.expression n)).run c = (.ok s, d)
  | .statements ss => ∀ {c d : Cursor} {t rb opening : Token}, c.Spans (t :: (ts ++ [rb])) d →
      rb.kind = .rbrace → statementsAfter (Parse.expression n) opening c = (.ok ss, d)

/-! ### Steps of the loop of an expression -/

section

variable {expression : Int → Parse Node} {c d f : Cursor} {l m : Level} {least : Int}
  {e b : Node} {n : Nat} {x : Ending} {ts : List Token} {as : List Node}

/-- The loop ends before a token that does not go on with its level. -/
theorem run_climb_of_not_mem (hl : l.Reads least) (h : c.lookahead.kind ∉ l.continuations) :
    (climb expression least e).run c = (.ok e, c) := by
  apply run_foldAhead_of_none
  rw [if_neg (mt (hl _).1 h)]

theorem climb_step_of_mem_operators (hl : l.Reads least) (h : c.lookahead.kind ∈ m.operators)
    (hm : m.continuations ⊆ l.continuations) :
    (if least < c.lookahead.kind.priority.level then
        (continuation? c.lookahead.kind).map fun k left => k.parse expression left
      else none) = some (Parse.binary expression) := by
  rw [if_pos ((hl _).2 (hm (Level.mem_continuations_of_mem_operators h))),
    Level.continuation?_of_mem_operators h]
  rfl

theorem climb_step_of_eq_lparen (hl : l.Reads least) (h : c.lookahead.kind = .lparen)
    (hm : Level.application.continuations ⊆ l.continuations) :
    (if least < c.lookahead.kind.priority.level then
        (continuation? c.lookahead.kind).map fun k left => k.parse expression left
      else none) = some (Parse.call expression) := by
  rw [h, if_pos ((hl _).2 (hm (by decide)))]
  rfl

theorem run_binary_of_ok (hd : c.advance? = some d)
    (h : (expression c.current.kind.priority.level).run d = (.ok b, f)) :
    (Parse.binary expression e).run c = (.ok (.binary e c.current.text b), f) := by
  unfold Parse.binary
  rw [run_bind_ok _ (run_current c), run_bind_ok _ (run_advanceTo_of_some hd), run_bind_ok _ h]
  rfl

theorem run_call_of_ok (h : (Item.argument.list expression).run c = (.ok as, f)) :
    (Parse.call expression e).run c = (.ok (.call e as), f) := by
  have has : (arguments expression).run c = (.ok as, f) := h
  unfold Parse.call
  rw [run_bind_ok _ has]
  rfl

/-- An operand is followed by the loop. -/
theorem run_expression_of_operand (h : (operand (Parse.expression n)).run c = (.ok e, d)) :
    (Parse.expression (n + 1) least).run c = (climb (Parse.expression n) least e).run d :=
  run_bind_ok _ h

/-- A phrase that nothing goes on with is the whole expression. -/
theorem Phrase.Read.run_expression (h : (Phrase.expression l x e).Read n ts) (hc : c.Spans ts d)
    (hl : l.Reads least) (hd : x.Allows l d.lookahead.kind) :
    (Parse.expression n least).run c = (.ok e, d) := by
  rw [h hc hl (List.Subset.refl _) hd.tighter]
  exact run_climb_of_not_mem hl hd.1

end

/-! ### First tokens -/

namespace Derives

variable {n : Nat} {p : Phrase} {l : Level} {x : Ending} {e s : Node} {ts : List Token} {i : Item}
  {es : List Node} {c d : Cursor}

/-- The first token of an expression starts an operand. -/
theorem exists_operandStart (h : Derives n (.expression l x e) ts) :
    ∃ t us, ts = t :: us ∧ t.kind ∈ Kind.operandStarts := by
  generalize hp : Phrase.expression l x e = p at h
  induction h generalizing l x e with
  | identifier ht | integer ht _ | boolean ht => exact ⟨_, _, rfl, by simp [Kind.operandStarts, ht]⟩
  | group hk | conditional hk | alternative hk | function hk =>
      exact ⟨_, _, rfl, by simp [Kind.operandStarts, hk]⟩
  | unary ho =>
      simp only [List.mem_cons, List.not_mem_nil, or_false] at ho
      exact ⟨_, _, rfl, by rcases ho with ho | ho <;> simp [Kind.operandStarts, ho]⟩
  | tighter _ ih => exact ih rfl
  | call _ _ ih _ | binary _ _ _ ih _ =>
      obtain ⟨t, us, rfl, ht⟩ := ih rfl
      exact ⟨t, _, rfl, ht⟩
  | _ => cases hp

/-- A list of items starts with a parenthesis, and its first item does not end it. -/
theorem exists_started (h : Derives n (.started i x es) ts) :
    ∃ t u us, ts = t :: u :: us ∧ t.kind = .lparen ∧ u.kind ≠ .rparen := by
  generalize hp : Phrase.started i x es = p at h
  induction h generalizing x es with
  | firstItem hl he =>
      obtain ⟨rfl, -⟩ := Phrase.started.inj hp
      cases i with
      | parameter =>
          cases he with
          | parameter ht => exact ⟨_, _, _, rfl, hl, by simp [ht]⟩
      | argument =>
          obtain ⟨t, us, rfl, ht⟩ := he.exists_operandStart
          refine ⟨_, _, _, rfl, hl, ?_⟩
          rintro hr
          rw [hr] at ht
          exact absurd ht (by decide)
  | nextItem _ _ _ ih =>
      obtain ⟨rfl, -⟩ := Phrase.started.inj hp
      obtain ⟨t, u, us, rfl, ht, hu⟩ := ih rfl
      exact ⟨t, u, _, rfl, ht, hu⟩
  | _ => cases hp

theorem exists_lbrace (h : Derives n (.block s) ts) : ∃ t us, ts = t :: us ∧ t.kind = .lbrace := by
  cases h with
  | block hl => exact ⟨_, _, rfl, hl⟩

theorem exists_lparen (h : Derives n (.items i es) ts) :
    ∃ t us, ts = t :: us ∧ t.kind = .lparen := by
  cases h with
  | noItems hl => exact ⟨_, _, rfl, hl⟩
  | items h =>
      obtain ⟨t, u, us, rfl, ht, -⟩ := h.exists_started
      exact ⟨t, _, rfl, ht⟩

theorem kind_lbrace (h : Derives n (.block s) ts) (hs : c.Spans ts d) :
    c.current.kind = .lbrace := by
  obtain ⟨t, us, rfl, ht⟩ := h.exists_lbrace
  rw [hs.head_eq, ht]

theorem kind_lparen (h : Derives n (.items i es) ts) (hs : c.Spans ts d) :
    c.current.kind = .lparen := by
  obtain ⟨t, us, rfl, ht⟩ := h.exists_lparen
  rw [hs.head_eq, ht]

theorem exists_valueStart (h : Derives n (.value x e) ts) :
    ∃ t us, ts = t :: us ∧ t.kind ∈ Kind.operandStarts := by
  cases h with
  | bare h => exact h.exists_operandStart
  | ended h =>
      obtain ⟨t, us, rfl, ht⟩ := h.exists_operandStart
      exact ⟨t, _, rfl, ht⟩

theorem exists_statementStart (h : Derives n (.statement x s) ts) :
    ∃ t us, ts = t :: us ∧ t.kind ∈ Kind.statementStarts := by
  cases h with
  | binding hk | returning hk => exact ⟨_, _, rfl, by simp [Kind.statementStarts, hk]⟩
  | expression h =>
      obtain ⟨t, us, rfl, ht⟩ := h.exists_valueStart
      exact ⟨t, us, rfl, by simp [Kind.statementStarts, ht]⟩

/-- An expression has no semicolon of its own. -/
theorem ending_ne_semicolon (h : Derives n (.expression l x e) ts) : x ≠ .semicolon := by
  generalize hp : Phrase.expression l x e = p at h
  induction h generalizing l x e with
  | tighter _ ih | unary _ _ ih | binary _ _ _ _ ih =>
      obtain ⟨-, rfl, -⟩ := Phrase.expression.inj hp
      exact ih rfl
  | identifier | integer | boolean | group | conditional | alternative | function | call =>
      obtain ⟨-, rfl, -⟩ := Phrase.expression.inj hp
      simp
  | _ => cases hp

theorem kind_ne_rbrace (h : Derives n (.statement x s) ts) (hs : c.Spans ts d) :
    c.current.kind ≠ .rbrace := by
  obtain ⟨t, us, rfl, ht⟩ := h.exists_statementStart
  rw [hs.head_eq]
  rintro hk
  rw [hk] at ht
  exact absurd ht (by decide)

/-- A statement among others closes before the next of them, and before `z` after the last. -/
theorem closes {ss : List Node} {vs : List Token} {z : Token}
    (hss : Derives n (.statements ss) vs)
    (hf : x ≠ .semicolon → ∀ t ∈ vs.head?, t.kind ∉ Level.equality.continuations)
    (hz : vs = [] → z.kind ∈ [Kind.rbrace, .eof]) : x.Closes (vs.head?.getD z).kind := by
  intro hx
  cases hss with
  | noStatements =>
      have hsub : [Kind.rbrace, .eof] ⊆ Kind.closers := by decide
      exact ⟨Kind.ne_of_mem (hz rfl) (by decide), Ending.allows_of_mem (hsub (hz rfl))⟩
  | statements hst =>
      obtain ⟨t, ts, rfl, ht⟩ := hst.exists_statementStart
      exact ⟨Kind.ne_of_mem ht (by decide), hf hx t (by simp), fun _ => Kind.ne_of_mem ht (by decide)⟩

end Derives

/-! ### Which parser an operand and a statement choose -/

section

variable {expression : Int → Parse Node} {c : Cursor}

theorem run_operand_of_ident (h : c.current.kind = .ident) :
    (operand expression).run c = (.ok (.identifier c.current.text), c) := by
  unfold operand
  rw [run_bind_ok _ (run_current c)]
  simp only [h]
  rfl

theorem run_operand_of_int (h : c.current.kind = .int) :
    (operand expression).run c = integerLiteral.run c := by
  unfold operand
  rw [run_bind_ok _ (run_current c)]
  simp only [h]

theorem run_operand_of_boolean (h : c.current.kind = .boolean) :
    (operand expression).run c = (.ok (.boolean (c.current.text == "true")), c) := by
  unfold operand
  rw [run_bind_ok _ (run_current c)]
  simp only [h]
  rfl

theorem run_operand_of_unary (h : c.current.kind ∈ [Kind.bang, Kind.minus]) :
    (operand expression).run c = (unary expression).run c := by
  unfold operand
  rw [run_bind_ok _ (run_current c)]
  simp only [List.mem_cons, List.not_mem_nil, or_false] at h
  rcases h with h | h
  · simp only [h]
    rfl
  · simp only [h]
    rfl

theorem run_operand_of_lparen (h : c.current.kind = .lparen) :
    (operand expression).run c = (group expression).run c := by
  unfold operand
  rw [run_bind_ok _ (run_current c)]
  simp only [h]

theorem run_operand_of_ifWord (h : c.current.kind = .ifWord) :
    (operand expression).run c = (conditional expression).run c := by
  unfold operand
  rw [run_bind_ok _ (run_current c)]
  simp only [h]

theorem run_operand_of_fnWord (h : c.current.kind = .fnWord) :
    (operand expression).run c = (function expression).run c := by
  unfold operand
  rw [run_bind_ok _ (run_current c)]
  simp only [h]

theorem run_operand_of_not_mem (h : c.current.kind ∉ Kind.operandStarts) :
    (operand expression).run c =
      (.error ⟨.noExpression c.current.kind c.current.text, some c.current⟩, c) := by
  unfold operand
  rw [run_bind_ok _ (run_current c)]
  generalize hk : c.current.kind = k at h ⊢
  cases k with
  | foreign name => rfl
  | _ => first | rfl | exact absurd (by decide) h

theorem run_statement_of_letWord (h : c.current.kind = .letWord) :
    (statement expression).run c = (binding expression).run c := by
  unfold statement
  rw [run_bind_ok _ (run_current c)]
  simp only [h]

theorem run_statement_of_returnWord (h : c.current.kind = .returnWord) :
    (statement expression).run c = (returning expression).run c := by
  unfold statement
  rw [run_bind_ok _ (run_current c)]
  simp only [h]

theorem run_statement_of_ne (hl : c.current.kind ≠ .letWord) (hr : c.current.kind ≠ .returnWord) :
    (statement expression).run c = (expressionStatement expression).run c := by
  unfold statement
  rw [run_bind_ok _ (run_current c)]
  generalize hk : c.current.kind = k at hl hr ⊢
  cases k with
  | letWord => exact absurd rfl hl
  | returnWord => exact absurd rfl hr
  | _ => rfl

end

/-! ### Lists, blocks and statements from their parts -/

section

variable {c c₁ d : Cursor} {n : Nat} {i : Item} {x : Ending} {e : Node} {es ss : List Node}
  {us ts : List Token} {expression : Int → Parse Node} {err : ParseError}

theorem Item.run_parse (h : (i.phrase x e).Read n us) (hc : c.advance? = some c₁)
    (hs : c₁.Spans us d) (hd : i.Allows x d.lookahead.kind) (w : Wanted) :
    (i.parse (Parse.expression n) w).run c = (.ok e, d) := by
  cases i with
  | parameter => exact h hc hs
  | argument =>
      show (Parse.argument _ _).run c = _
      unfold Parse.argument
      rw [run_bind_ok _ (run_advanceTo_of_some hc)]
      exact Phrase.Read.run_expression h hs Level.equality_reads hd

/-- After its first item a list goes on with its rest. -/
theorem Item.run_list (hr : c.lookahead.kind ≠ .rparen)
    (h : (i.parse expression .firstArgument).run c = (.ok e, d)) :
    (i.list expression).run c = (i.rest expression [e]).run d := by
  unfold Item.list Parse.listed
  rw [run_bind_ok _ (run_accept_of_ne hr)]
  simp only [Bool.false_eq_true, if_false]
  rw [run_bind_ok _ h]
  rfl

theorem Item.run_list_of_error (hr : c.lookahead.kind ≠ .rparen)
    (h : (i.parse expression .firstArgument).run c = (.error err, d)) :
    (i.list expression).run c = (.error err, d) := by
  unfold Item.list Parse.listed
  rw [run_bind_ok _ (run_accept_of_ne hr)]
  simp only [Bool.false_eq_true, if_false]
  exact run_bind_error _ h

theorem Item.run_list_of_rparen (hc : c.advance? = some d) (hd : d.current.kind = .rparen) :
    (i.list expression).run c = (.ok [], d) := by
  unfold Item.list Parse.listed
  rw [run_bind_ok _ (run_accept_of_eq hc hd)]
  rfl

theorem Item.run_rest_of_comma (hc : c.advance? = some c₁) (hk : c₁.current.kind = .comma)
    (h : (i.parse expression .nextArgument).run c₁ = (.ok e, d)) :
    (i.rest expression es).run c = (i.rest expression (e :: es)).run d := by
  have hahead : c.lookahead.kind = .comma := by rw [← Cursor.current_of_advance? hc, hk]
  have hstep : (do return (← i.parse expression .nextArgument) :: es : Parse (List Node)).run c₁ =
      (.ok (e :: es), d) := by
    rw [run_bind_ok _ h]
    rfl
  unfold Item.rest
  rw [run_bind, run_bind,
    run_foldAhead_of_ok (by rw [hahead]; exact i.step_comma expression) hc hstep]

theorem Item.run_rest_of_error (hc : c.advance? = some c₁) (hk : c₁.current.kind = .comma)
    (h : (i.parse expression .nextArgument).run c₁ = (.error err, d)) :
    (i.rest expression es).run c = (.error err, d) := by
  have hahead : c.lookahead.kind = .comma := by rw [← Cursor.current_of_advance? hc, hk]
  unfold Item.rest
  exact run_bind_error _ (run_foldAhead_of_error
    (by rw [hahead]; exact i.step_comma expression) hc (run_bind_error _ h))

/-- A list that neither goes on nor ends has no closing parenthesis. -/
theorem Item.run_rest_of_ne (hc : c.lookahead.kind ≠ .comma)
    (h : (expect .rparen).run c = (.error err, d)) :
    (i.rest expression es).run c = (.error err, d) := by
  unfold Item.rest
  rw [run_bind_ok _ (run_foldAhead_of_none (i.step_of_ne expression hc))]
  exact run_bind_error _ h

theorem Item.run_rest_of_rparen (hc : c.advance? = some d) (hd : d.current.kind = .rparen) :
    (i.rest expression es).run c = (.ok es.reverse, d) := by
  have hahead : c.lookahead.kind = .rparen := by rw [← Cursor.current_of_advance? hc, hd]
  unfold Item.rest
  rw [run_bind_ok _ (run_foldAhead_of_none (i.step_of_ne expression (by simp [hahead]))),
    run_bind_ok _ (run_expect_of_eq hc hd)]
  rfl

theorem statementsAfter_of_some {t : Token} (hc : c.advance? = some d) :
    statementsAfter expression t c =
      (itemsUntil .rbrace ⟨.unclosedBlock, some t⟩ (statement expression)).run d := by
  unfold statementsAfter
  rw [hc]

theorem statementsAfter_of_none {t : Token} (hc : c.advance? = none) :
    statementsAfter expression t c = (.error ⟨.unclosedBlock, some t⟩, c) := by
  unfold statementsAfter
  rw [hc]

/-- While a block is read, one more block is open. -/
theorem run_block (expression : Int → Parse Node) (c : Cursor) :
    (Parse.block expression).run c =
      match statementsAfter expression c.current (c.deepen 1) with
      | (.ok ss, d) => (.ok (.block ss), { d with depth := d.depth - 1 })
      | (.error err, d) => (.error err, d) := by
  have hcount : (countBlocks (· + 1)).run c = (.ok (), c.deepen 1) := rfl
  unfold Parse.block statementsAfter
  rw [run_bind_ok _ (run_current c), run_bind_ok _ hcount]
  cases h : (c.deepen 1).advance? with
  | none =>
      rw [run_bind_ok _ (run_advance_of_none h)]
      rfl
  | some d =>
      rw [run_bind_ok _ (run_advance_of_some h)]
      simp only [if_true]
      rw [run_bind]
      generalize (itemsUntil .rbrace _ (statement expression)).run d = r
      rcases r with ⟨err | ss, d⟩ <;> rfl

end

/-! ### Operands and values from their parts -/

/-- A conditional, from the end of its consequence on. -/
def Parse.alternative (expression : Int → Parse Node) (condition consequence : Node) :
    Parse Node := do
  if ← accept .elseWord then
    let _ ← expect .lbrace
    let alternative ← block expression
    return .conditional condition consequence (some alternative)
  else
    return .conditional condition consequence none

/-- A conditional, from the end of its condition on. -/
def Parse.branches (expression : Int → Parse Node) (condition : Node) : Parse Node := do
  let _ ← expect .rparen
  let _ ← expect .lbrace
  let consequence ← block expression
  Parse.alternative expression condition consequence

section

variable {expression : Int → Parse Node} {c c₁ d f : Cursor} {e : Node}

theorem run_integerLiteral_of_ok {v : Int}
    (h : Text.Numeral.readLiteral c.current.text = .ok v) :
    integerLiteral.run c = (.ok (.integer v), c) := by
  unfold integerLiteral
  rw [run_bind_ok _ (run_current c)]
  simp only [h]
  rfl

theorem run_unary_of_ok (hc : c.advance? = some c₁)
    (h : (expression Priority.unary.level).run c₁ = (.ok e, d)) :
    (unary expression).run c = (.ok (.unary c.current.text e), d) := by
  unfold Parse.unary
  rw [run_bind_ok _ (run_current c), run_bind_ok _ (run_advanceTo_of_some hc), run_bind_ok _ h]
  rfl

theorem run_group_of_rparen (hc : c.advance? = some c₁)
    (h : (expression Priority.lowest.level).run c₁ = (.ok e, d)) (hd : d.advance? = some f)
    (hf : f.current.kind = .rparen) : (group expression).run c = (.ok e, f) := by
  unfold Parse.group
  rw [run_bind_ok _ (run_current c), run_bind_ok _ (run_advanceTo_of_some hc), run_bind_ok _ h,
    run_bind_ok _ (run_lookahead d), run_bind_ok _ (run_accept_of_eq hd hf)]
  rfl

theorem run_value_of_ne (h : (expression Priority.lowest.level).run c = (.ok e, d))
    (hd : d.lookahead.kind ≠ .semicolon) : (value expression).run c = (.ok e, d) := by
  unfold Parse.value
  rw [run_bind_ok _ h, run_bind_ok _ (run_accept_of_ne hd)]
  rfl

theorem run_value_of_semicolon (h : (expression Priority.lowest.level).run c = (.ok e, d))
    (hd : d.advance? = some f) (hf : f.current.kind = .semicolon) :
    (value expression).run c = (.ok e, f) := by
  unfold Parse.value
  rw [run_bind_ok _ h, run_bind_ok _ (run_accept_of_eq hd hf)]
  rfl

end

/-! ### Every rule

What the parser reads is closed under the rules of the grammar, one lemma a rule.  In each of them
the span of the phrase falls into the spans of its parts, and the parser moves over those. -/

namespace Phrase.Read

open Cursor

section

variable {n : Nat} {i : Item} {x y : Ending} {a b e s : Node} {es ss : List Node}
  {kw t lp rp op : Token} {us vs ws ts : List Token} {c d : Cursor}

/-! #### Operands -/

/-- What is read as an operand is an expression. -/
theorem of_operand {m : Level} (h : ∀ {c d : Cursor}, c.Spans ts d →
      x.Allows m.tighter d.lookahead.kind →
      (operand (Parse.expression n)).run c = (.ok e, d)) :
    (Phrase.expression m x e).Read (n + 1) ts := by
  intro c d l least hs _ _ hd
  exact run_expression_of_operand (h hs hd)

/-- A token that is an operand is an expression. -/
theorem of_token {m : Level} (h : ∀ {c : Cursor}, c.current = t →
      (operand (Parse.expression n)).run c = (.ok e, c)) :
    (Phrase.expression m x e).Read (n + 1) [t] := by
  apply of_operand
  intro c d hs _
  obtain rfl := hs.eq_of_singleton
  exact h hs.head_eq

theorem identifier (ht : t.kind = .ident) :
    (Phrase.expression .primary .plain (.identifier t.text)).Read (n + 1) [t] := by
  apply of_token
  rintro c rfl
  exact run_operand_of_ident ht

theorem integer {v : Int} (ht : t.kind = .int) (hv : Text.Numeral.readLiteral t.text = .ok v) :
    (Phrase.expression .primary .plain (.integer v)).Read (n + 1) [t] := by
  apply of_token
  rintro c rfl
  rw [run_operand_of_int ht, run_integerLiteral_of_ok hv]

theorem boolean (ht : t.kind = .boolean) :
    (Phrase.expression .primary .plain (.boolean (t.text == "true"))).Read (n + 1) [t] := by
  apply of_token
  rintro c rfl
  exact run_operand_of_boolean ht

theorem unary (ho : op.kind ∈ [Kind.bang, Kind.minus]) (he : Derives n (.expression .unary x e) ts)
    (ih : (Phrase.expression .unary x e).Read n ts) :
    (Phrase.expression .unary x (.unary op.text e)).Read (n + 1) (op :: ts) := by
  apply of_operand
  intro c d hs hd
  obtain rfl := hs.head_eq
  obtain ⟨c₁, hc₁, hs⟩ := hs.exists_advance? (he.ne_nil (by simp))
  rw [run_operand_of_unary ho]
  exact run_unary_of_ok hc₁ (ih.run_expression hs Level.unary_reads hd)

theorem group (hl : lp.kind = .lparen) (he : Derives n (.expression .equality x e) ts)
    (hr : rp.kind = .rparen) (ih : (Phrase.expression .equality x e).Read n ts) :
    (Phrase.expression .primary .plain e).Read (n + 1) (lp :: (ts ++ [rp])) := by
  apply of_operand
  intro c d hs _
  obtain rfl := hs.head_eq
  obtain ⟨c₁, hc₁, hs⟩ := hs.exists_advance? (by simp)
  obtain ⟨d₁, c₂, hs₁, hc₂, hs⟩ := hs.split (he.ne_nil (by simp)) (by simp)
  obtain rfl := hs.eq_of_singleton
  obtain rfl := hs.head_eq
  have hrun := ih.run_expression hs₁ Level.equality_reads
    (by rw [← current_of_advance? hc₂, hr]; exact Ending.allows_of_mem (by decide))
  rw [run_operand_of_lparen hl]
  exact run_group_of_rparen hc₁ hrun hc₂ hr

/-- A conditional is read up to the end of its condition. -/
theorem run_condition (hk : kw.kind = .ifWord) (hl : lp.kind = .lparen)
    (he : Derives n (.expression .equality x e) us)
    (ih : (Phrase.expression .equality x e).Read n us) (hs : c.Spans (kw :: lp :: us) d)
    (hd : x.Allows .equality d.lookahead.kind) :
    (operand (Parse.expression n)).run c = (branches (Parse.expression n) e).run d := by
  obtain rfl := hs.head_eq
  obtain ⟨c₁, hc₁, hs⟩ := hs.exists_advance? (by simp)
  obtain rfl := hs.head_eq
  obtain ⟨c₂, hc₂, hs⟩ := hs.exists_advance? (he.ne_nil (by simp))
  rw [run_operand_of_ifWord hk]
  unfold Parse.conditional
  rw [run_bind_ok _ (run_expect_of_eq hc₁ hl), run_bind_ok _ (run_advanceTo_of_some hc₂),
    run_bind_ok _ (ih.run_expression hs Level.equality_reads hd)]
  rfl

/-- A conditional is read from the end of its condition up to the end of its consequence. -/
theorem run_consequence (hr : rp.kind = .rparen) (hb : Derives n (.block b) vs)
    (ih : (Phrase.block b).Read n vs) (hs : c.Spans (t :: rp :: vs) d) :
    (branches (Parse.expression n) e).run c = (alternative (Parse.expression n) e b).run d := by
  obtain ⟨c₁, hc₁, hs⟩ := hs.exists_advance? (by simp)
  obtain rfl := hs.head_eq
  obtain ⟨c₂, hc₂, hs⟩ := hs.exists_advance? (hb.ne_nil (by simp))
  unfold Parse.branches
  rw [run_bind_ok _ (run_expect_of_eq hc₁ hr),
    run_bind_ok _ (run_expect_of_eq hc₂ (hb.kind_lbrace hs)), run_bind_ok _ (ih hs)]

theorem conditional (hk : kw.kind = .ifWord) (hl : lp.kind = .lparen)
    (he : Derives n (.expression .equality x e) us) (hr : rp.kind = .rparen)
    (hb : Derives n (.block b) vs) (ihe : (Phrase.expression .equality x e).Read n us)
    (ihb : (Phrase.block b).Read n vs) :
    (Phrase.expression .primary .conditional (.conditional e b none)).Read (n + 1)
      (kw :: lp :: (us ++ rp :: vs)) := by
  apply of_operand
  intro c d hs hd
  have hs : c.Spans ((kw :: lp :: us) ++ _) d := hs
  obtain ⟨d₁, c₁, hs₁, hc₁, hs⟩ := hs.split (by simp) (by simp)
  have hallows : x.Allows .equality d₁.lookahead.kind := by
    rw [← current_of_advance? hc₁, hs.head_eq, hr]
    exact Ending.allows_of_mem (by decide)
  rw [run_condition hk hl he ihe hs₁ hallows, run_consequence hr hb ihb (.step hc₁ hs)]
  -- the conditional is at its end, since the next token is no `else`
  unfold Parse.alternative
  rw [run_bind_ok _ (run_accept_of_ne (hd.2 rfl))]
  rfl

theorem alternative {els : Token} (hk : kw.kind = .ifWord) (hl : lp.kind = .lparen)
    (he : Derives n (.expression .equality x e) us) (hr : rp.kind = .rparen)
    (ha : Derives n (.block a) vs) (hels : els.kind = .elseWord) (hb : Derives n (.block b) ws)
    (ihe : (Phrase.expression .equality x e).Read n us) (iha : (Phrase.block a).Read n vs)
    (ihb : (Phrase.block b).Read n ws) :
    (Phrase.expression .primary .plain (.conditional e a (some b))).Read (n + 1)
      (kw :: lp :: (us ++ rp :: (vs ++ els :: ws))) := by
  apply of_operand
  intro c d hs _
  have hs : c.Spans ((kw :: lp :: us) ++ _) d := hs
  obtain ⟨d₁, c₁, hs₁, hc₁, hs⟩ := hs.split (by simp) (by simp)
  have hallows : x.Allows .equality d₁.lookahead.kind := by
    rw [← current_of_advance? hc₁, hs.head_eq, hr]
    exact Ending.allows_of_mem (by decide)
  have hs : c₁.Spans ((rp :: vs) ++ _) d := hs
  obtain ⟨d₂, c₂, hs₂, hc₂, hs⟩ := hs.split (by simp) (by simp)
  obtain rfl := hs.head_eq
  obtain ⟨c₃, hc₃, hs⟩ := hs.exists_advance? (hb.ne_nil (by simp))
  rw [run_condition hk hl he ihe hs₁ hallows, run_consequence hr ha iha (.step hc₁ hs₂)]
  unfold Parse.alternative
  rw [run_bind_ok _ (run_accept_of_eq hc₂ hels)]
  simp only [if_true]
  rw [run_bind_ok _ (run_expect_of_eq hc₃ (hb.kind_lbrace hs)), run_bind_ok _ (ihb hs)]
  rfl

theorem function (hk : kw.kind = .fnWord) (hp : Derives n (.items .parameter es) us)
    (hb : Derives n (.block b) vs) (ihp : (Phrase.items .parameter es).Read n us)
    (ihb : (Phrase.block b).Read n vs) :
    (Phrase.expression .primary .plain (.function es b)).Read (n + 1) (kw :: (us ++ vs)) := by
  apply of_operand
  intro c d hs _
  obtain rfl := hs.head_eq
  obtain ⟨c₁, hc₁, hs⟩ := hs.exists_advance? (by simp [hp.ne_nil])
  obtain ⟨d₁, c₂, hs₁, hc₂, hs⟩ := hs.split (hp.ne_nil (by simp)) (hb.ne_nil (by simp))
  have hparameters : parameters.run c₁ = _ := ihp hs₁
  rw [run_operand_of_fnWord hk]
  unfold Parse.function
  rw [run_bind_ok _ (run_expect_of_eq hc₁ (hp.kind_lparen hs₁)), run_bind_ok _ hparameters,
    run_bind_ok _ (run_expect_of_eq hc₂ (hb.kind_lbrace hs)), run_bind_ok _ (ihb hs)]
  rfl

/-! #### What follows an operand -/

theorem call (hf : Derives (n + 1) (.expression .application x e) us)
    (ha : Derives n (.items .argument es) vs)
    (ihf : (Phrase.expression .application x e).Read (n + 1) us)
    (iha : (Phrase.items .argument es).Read n vs) :
    (Phrase.expression .application .plain (.call e es)).Read (n + 1) (us ++ vs) := by
  intro c d l least hs hl hm _
  obtain ⟨d₁, c₂, hs₁, hc₂, hs⟩ := hs.split (hf.ne_nil (by simp)) (ha.ne_nil (by simp))
  have hahead : d₁.lookahead.kind = .lparen := by
    rw [← current_of_advance? hc₂, ha.kind_lparen hs]
  rw [ihf hs₁ hl hm ⟨by simp [Level.tighter, Level.continuations], by simp [hahead]⟩]
  exact run_foldAhead_of_ok (climb_step_of_eq_lparen hl hahead hm) hc₂ (run_call_of_ok (iha hs))

theorem binary {m : Level} (ha : Derives (n + 1) (.expression m x a) us)
    (ho : op.kind ∈ m.operators) (hb : Derives n (.expression m.tighter y b) vs)
    (iha : (Phrase.expression m x a).Read (n + 1) us)
    (ihb : (Phrase.expression m.tighter y b).Read n vs) :
    (Phrase.expression m y (.binary a op.text b)).Read (n + 1) (us ++ op :: vs) := by
  intro c d l least hs hl hm hd
  obtain ⟨d₁, c₂, hs₁, hc₂, hs⟩ := hs.split (ha.ne_nil (by simp)) (by simp)
  obtain rfl := hs.head_eq
  obtain ⟨c₃, hc₃, hs⟩ := hs.exists_advance? (hb.ne_nil (by simp))
  have hahead : d₁.lookahead.kind ∈ m.operators := by rwa [← current_of_advance? hc₂]
  rw [iha hs₁ hl hm (Ending.allows_of_mem_operators hahead)]
  exact run_foldAhead_of_ok (climb_step_of_mem_operators hl hahead hm) hc₂
    (run_binary_of_ok hc₃ (ihb.run_expression hs (Level.tighter_reads ho) hd))

theorem tighter {m : Level} (ih : (Phrase.expression m.tighter x e).Read n ts) :
    (Phrase.expression m x e).Read n ts := by
  intro c d l least hs hl hm hd
  exact ih hs hl (fun _ hk => hm (m.continuations_tighter_subset hk)) hd.tighter

/-! #### Lists -/

theorem parameter (n : Nat) (ht : t.kind = .ident) :
    (Phrase.parameter .plain (.identifier t.text)).Read n [t] := by
  intro b c d hb hs
  obtain rfl := hs.head_eq
  obtain rfl := hs.eq_of_singleton
  unfold Parse.parameter
  rw [run_bind_ok _ (run_expect_of_eq hb ht)]
  rfl

theorem firstItem (hl : lp.kind = .lparen) (he : Derives n (i.phrase x e) us)
    (ih : (i.phrase x e).Read n us) : (Phrase.started i x [e]).Read n (lp :: us) := by
  intro c d hs hd
  obtain ⟨t, u, ts, heq, -, hu⟩ := (Derives.firstItem hl he).exists_started
  obtain ⟨rfl, rfl⟩ := List.cons.inj heq
  obtain ⟨c₁, hc₁, hs₁⟩ := hs.exists_advance? (by simp)
  have hahead : c.lookahead.kind ≠ .rparen := by
    rw [← current_of_advance? hc₁, hs₁.head_eq]
    exact hu
  exact Item.run_list hahead (Item.run_parse ih hc₁ hs₁ hd _)

theorem nextItem {comma : Token} (hst : Derives n (.started i x es) us)
    (hk : comma.kind = .comma) (he : Derives n (i.phrase y e) vs)
    (ihs : (Phrase.started i x es).Read n us) (ih : (i.phrase y e).Read n vs) :
    (Phrase.started i y (es ++ [e])).Read n (us ++ comma :: vs) := by
  intro c d hs hd
  obtain ⟨d₁, c₂, hs₁, hc₂, hs⟩ := hs.split (hst.ne_nil (by simp)) (by simp)
  obtain rfl := hs.head_eq
  obtain ⟨c₃, hc₃, hs⟩ := hs.exists_advance? (he.ne_nil (by cases i <;> simp [Item.phrase]))
  have hahead : d₁.lookahead.kind = .comma := by rw [← current_of_advance? hc₂, hk]
  rw [ihs hs₁ (by rw [hahead]; exact Item.allows_of_mem (by decide)), List.reverse_append]
  exact Item.run_rest_of_comma hc₂ hk (Item.run_parse ih hc₃ hs hd _)

theorem noItems (hr : rp.kind = .rparen) : (Phrase.items i []).Read n [lp, rp] := by
  intro c d hs
  obtain ⟨c₁, hc₁, hs⟩ := hs.exists_advance? (by simp)
  obtain rfl := hs.eq_of_singleton
  exact Item.run_list_of_rparen hc₁ (by rw [hs.head_eq, hr])

theorem items (hst : Derives n (.started i x es) us) (hr : rp.kind = .rparen)
    (ih : (Phrase.started i x es).Read n us) : (Phrase.items i es).Read n (us ++ [rp]) := by
  intro c d hs
  obtain ⟨d₁, c₂, hs₁, hc₂, hs⟩ := hs.split (hst.ne_nil (by simp)) (by simp)
  obtain rfl := hs.eq_of_singleton
  obtain rfl := hs.head_eq
  have hahead : d₁.lookahead.kind = .rparen := by rw [← current_of_advance? hc₂, hr]
  rw [ih hs₁ (by rw [hahead]; exact Item.allows_of_mem (by decide)),
    Item.run_rest_of_rparen hc₂ hr, List.reverse_reverse]

/-! #### Blocks and statements -/

theorem block {lb rb : Token} (hr : rb.kind = .rbrace) (ih : (Phrase.statements ss).Read n ts) :
    (Phrase.block (.block ss)).Read n (lb :: (ts ++ [rb])) := by
  intro c d hs
  rw [run_block, ih (hs.deepen 1) hr]
  rfl

theorem bare (he : Derives n (.expression .equality x e) ts)
    (ih : (Phrase.expression .equality x e).Read n ts) : (Phrase.value x e).Read n ts := by
  intro c d hs hd
  obtain ⟨hsemi, hallows⟩ := hd he.ending_ne_semicolon
  exact run_value_of_ne (ih.run_expression hs Level.equality_reads hallows) hsemi

theorem ended {semi : Token} (he : Derives n (.expression .equality x e) ts)
    (hsemi : semi.kind = .semicolon) (ih : (Phrase.expression .equality x e).Read n ts) :
    (Phrase.value .semicolon e).Read n (ts ++ [semi]) := by
  intro c d hs _
  obtain ⟨d₁, c₂, hs₁, hc₂, hs⟩ := hs.split (he.ne_nil (by simp)) (by simp)
  obtain rfl := hs.eq_of_singleton
  obtain rfl := hs.head_eq
  have hahead : d₁.lookahead.kind = .semicolon := by rw [← current_of_advance? hc₂, hsemi]
  have hrun := ih.run_expression hs₁ Level.equality_reads
    (by rw [hahead]; exact Ending.allows_of_mem (by decide))
  exact run_value_of_semicolon hrun hc₂ hsemi

theorem binding {name eq : Token} (hk : kw.kind = .letWord) (hn : name.kind = .ident)
    (heq : eq.kind = .assign) (hv : Derives n (.value x e) ts)
    (ih : (Phrase.value x e).Read n ts) :
    (Phrase.statement x (.binding (.identifier name.text) e)).Read n
      (kw :: name :: eq :: ts) := by
  intro c d hs hd
  obtain rfl := hs.head_eq
  obtain ⟨c₁, hc₁, hs⟩ := hs.exists_advance? (by simp)
  obtain rfl := hs.head_eq
  obtain ⟨c₂, hc₂, hs⟩ := hs.exists_advance? (by simp)
  obtain rfl := hs.head_eq
  obtain ⟨c₃, hc₃, hs⟩ := hs.exists_advance? (hv.ne_nil (by simp))
  rw [run_statement_of_letWord hk]
  unfold Parse.binding
  rw [run_bind_ok _ (run_expect_of_eq hc₁ hn), run_bind_ok _ (run_expect_of_eq hc₂ heq),
    run_bind_ok _ (run_advanceTo_of_some hc₃), run_bind_ok _ (ih hs hd)]
  rfl

theorem returning (hk : kw.kind = .returnWord) (hv : Derives n (.value x e) ts)
    (ih : (Phrase.value x e).Read n ts) :
    (Phrase.statement x (.returning e)).Read n (kw :: ts) := by
  intro c d hs hd
  obtain rfl := hs.head_eq
  obtain ⟨c₁, hc₁, hs⟩ := hs.exists_advance? (hv.ne_nil (by simp))
  rw [run_statement_of_returnWord hk]
  unfold Parse.returning
  rw [run_bind_ok _ (run_advanceTo_of_some hc₁), run_bind_ok _ (ih hs hd)]
  rfl

theorem expression (hv : Derives n (.value x e) ts) (ih : (Phrase.value x e).Read n ts) :
    (Phrase.statement x (.expression e)).Read n ts := by
  intro c d hs hd
  obtain ⟨t, us, rfl, ht⟩ := hv.exists_valueStart
  obtain rfl := hs.head_eq
  -- a value starts with an operand, so no reserved word chooses another statement
  rw [run_statement_of_ne (Kind.ne_of_mem ht (by decide)) (Kind.ne_of_mem ht (by decide))]
  unfold Parse.expressionStatement
  rw [run_bind_ok _ (ih hs hd)]
  rfl

theorem noStatements : (Phrase.statements []).Read n [] := by
  intro c d t rb opening hs hrb
  obtain ⟨c₁, hc₁, hs⟩ := hs.exists_advance? (by simp)
  obtain rfl := hs.eq_of_singleton
  rw [statementsAfter_of_some hc₁]
  exact run_itemsUntil_of_eq (by rw [hs.head_eq, hrb])

theorem statements (hst : Derives n (.statement x s) us) (hss : Derives n (.statements ss) vs)
    (hf : x ≠ .semicolon → ∀ t ∈ vs.head?, t.kind ∉ Level.equality.continuations)
    (ihs : (Phrase.statement x s).Read n us) (ihss : (Phrase.statements ss).Read n vs) :
    (Phrase.statements (s :: ss)).Read n (us ++ vs) := by
  intro c d t rb opening hs hrb
  obtain ⟨c₁, hc₁, hs⟩ := hs.exists_advance? (by simp)
  rw [List.append_assoc] at hs
  obtain ⟨d₁, c₂, hs₁, hc₂, hs⟩ := hs.split (hst.ne_nil (by simp)) (by simp)
  have hrest := @ihss _ _ _ _ opening (.step hc₂ hs) hrb
  rw [statementsAfter_of_some hc₂] at hrest
  -- after the statement comes the next one or the brace, and neither goes on with it
  have hahead : vs.head?.getD rb = d₁.lookahead := by
    rw [← current_of_advance? hc₂]
    cases vs <;> exact hs.head_eq.symm
  have hrun := ihs hs₁ (by rw [← hahead]; exact hss.closes hf fun _ => by simp [hrb])
  rw [statementsAfter_of_some hc₁,
    run_itemsUntil_of_some (hst.kind_ne_rbrace hs₁) hrun hc₂, hrest]

end

end Phrase.Read

namespace Derives

variable {n : Nat} {p : Phrase} {ts : List Token}

/-- What has a derivation is read as derived. -/
theorem read (h : Derives n p ts) : p.Read n ts := by
  induction h with
  | identifier ht => exact Phrase.Read.identifier ht
  | integer ht hv => exact Phrase.Read.integer ht hv
  | boolean ht => exact Phrase.Read.boolean ht
  | group hl he hr ih => exact Phrase.Read.group hl he hr ih
  | conditional hk hl he hr hb ihe ihb => exact Phrase.Read.conditional hk hl he hr hb ihe ihb
  | alternative hk hl he hr ha hels hb ihe iha ihb =>
      exact Phrase.Read.alternative hk hl he hr ha hels hb ihe iha ihb
  | function hk hp hb ihp ihb => exact Phrase.Read.function hk hp hb ihp ihb
  | call hf ha ihf iha => exact Phrase.Read.call hf ha ihf iha
  | unary ho he ih => exact Phrase.Read.unary ho he ih
  | binary ha ho hb iha ihb => exact Phrase.Read.binary ha ho hb iha ihb
  | tighter _ ih => exact Phrase.Read.tighter ih
  | @parameter n _ ht => exact Phrase.Read.parameter n ht
  | firstItem hl he ih => exact Phrase.Read.firstItem hl he ih
  | nextItem hst hk he ihs ih => exact Phrase.Read.nextItem hst hk he ihs ih
  | noItems _ hr => exact Phrase.Read.noItems hr
  | items hst hr ih => exact Phrase.Read.items hst hr ih
  | block _ _ hr ih => exact Phrase.Read.block hr ih
  | bare he ih => exact Phrase.Read.bare he ih
  | ended he hsemi ih => exact Phrase.Read.ended he hsemi ih
  | binding hk hn heq hv ih => exact Phrase.Read.binding hk hn heq hv ih
  | returning hk hv ih => exact Phrase.Read.returning hk hv ih
  | expression hv ih => exact Phrase.Read.expression hv ih
  | noStatements => exact Phrase.Read.noStatements
  | statements hst hss hf ihs ihss => exact Phrase.Read.statements hst hss hf ihs ihss

/-- An expression is read by a parser of its level, up to a token that does not go on with it. -/
theorem run_expression {l : Level} {x : Ending} {e : Node} {c d : Cursor} {least : Int}
    (h : Derives n (.expression l x e) ts) (hs : c.Spans ts d) (hl : l.Reads least)
    (hd : x.Allows l d.lookahead.kind) : (Parse.expression n least).run c = (.ok e, d) :=
  Phrase.Read.run_expression h.read hs hl hd

end Derives

end FnLang
