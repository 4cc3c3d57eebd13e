/- # FnLang.Proofs.Simulation — two runs of the parser, side by side.

The parser sees of its cursor what the few moves of `Parse.Basic` show: the current token and the one
after it, whether it can move on, and how many blocks are open.  A `Simulation` is any relation of
cursors that these moves keep, under which both show tokens of the same kind.  The text has to be the
same of the token under the cursor only, since no parser reads a text before it has moved to it.  Then
every parser keeps the relation (`Simulation.expression`), with the same tree on both sides or with the
same error, but for the tokens that the error points at and the places that it quotes
(`ParseError.Matches`).  A place is quoted of a token that was stood on only.

The cursors need not stand at the start of anything.  The parser of each form is followed from any
two cursors that are related, in the middle of a statement and after an error as well.
-/
import Mathlib.Data.List.Forall2
import FnLang.Proofs.Program

namespace FnLang

/-! ## Results that agree -/

/-- The causes are the same, but for the place of a group that is not closed: it is that of related
tokens. -/
inductive Cause.Alike (T : Token → Token → Prop) : Cause → Cause → Prop
  | same (x : Cause) : Alike T x x
  | group {t u : Token} {found : Kind} : T t u →
      Alike T (.unclosedGroup t.line t.column found) (.unclosedGroup u.line u.column found)

/-- The errors are the same, but for tokens that are related. -/
structure ParseError.Alike (T : Token → Token → Prop) (e f : ParseError) : Prop where
  cause : e.cause.Alike T f.cause
  token : Option.Rel T e.token f.token

/-- The errors are the same, but for a place that is quoted, which is that of tokens that were taken,
and for the tokens pointed at. -/
structure ParseError.Matches (Taken Same : Token → Token → Prop) (e f : ParseError) : Prop where
  cause : e.cause.Alike Taken f.cause
  token : Option.Rel Same e.token f.token

theorem ParseError.Matches.of_token {Taken Same : Token → Token → Prop} {t u : Token} (x : Cause)
    (h : Same t u) : ParseError.Matches Taken Same ⟨x, some t⟩ ⟨x, some u⟩ :=
  ⟨.same x, .some h⟩

/-- Results that agree: values that are related, or errors that match. -/
inductive Agree {α β : Type} (Taken Same : Token → Token → Prop) (R : α → β → Prop) :
    Except ParseError α → Except ParseError β → Prop
  | ok {a : α} {b : β} : R a b → Agree Taken Same R (.ok a) (.ok b)
  | error {e f : ParseError} : e.Matches Taken Same f → Agree Taken Same R (.error e) (.error f)

theorem Cause.Alike.eq {x y : Cause} (h : x.Alike Eq y) : x = y := by
  cases h with
  | same => rfl
  | group htu => rw [htu]

/-- Where the same token stands on both sides, nothing can differ. -/
theorem Agree.eq {α : Type} {r s : Except ParseError α} (h : Agree Eq Eq Eq r s) : r = s := by
  cases h with
  | ok hab => rw [hab]
  | @error e f hef =>
      obtain ⟨x, t⟩ := e
      obtain ⟨y, u⟩ := f
      have hcause : x = y := hef.cause.eq
      have htoken : t = u := by
        cases hef.token with
        | none => rfl
        | some htu => rw [htu]
      rw [hcause, htoken]

theorem Cause.Alike.imp {T U : Token → Token → Prop} {x y : Cause} (h : x.Alike T y)
    (hTU : ∀ {t u}, T t u → U t u) : x.Alike U y := by
  cases h with
  | same => exact .same x
  | group htu => exact .group (hTU htu)

/-- Results whose outcomes agree have the same program, and errors that are alike in the same order. -/
theorem ParseResult.alike_of_agree {Taken T : Token → Token → Prop}
    (htaken : ∀ {t u}, Taken t u → T t u) {r s : ParseResult}
    (h : List.Forall₂ (Agree Taken T Eq) r.outcomes s.outcomes) :
    r.program = s.program ∧ List.Forall₂ (ParseError.Alike T) r.errors s.errors := by
  obtain ⟨os⟩ := r
  obtain ⟨ps⟩ := s
  change List.Forall₂ (Agree Taken T Eq) os ps at h
  have hboth : ParseResult.statements ⟨os⟩ = ParseResult.statements ⟨ps⟩ ∧
      List.Forall₂ (ParseError.Alike T) (ParseResult.errors ⟨os⟩) (ParseResult.errors ⟨ps⟩) := by
    induction h with
    | nil => exact ⟨rfl, .nil⟩
    | cons hop _ ih =>
        cases hop with
        | ok hab =>
            subst hab
            exact ⟨congrArg (List.cons _) ih.1, ih.2⟩
        | error hxy => exact ⟨ih.1, .cons ⟨hxy.cause.imp htaken, hxy.token⟩ ih.2⟩
  exact ⟨congrArg Node.program hboth.1, hboth.2⟩

/-! ## Simulations -/

/-- A relation of cursors that the moves of a parser keep, with the relation of the tokens they show
and the closer one of the tokens they stand on. -/
structure Simulation where
  Same : Token → Token → Prop
  Taken : Token → Token → Prop
  Related : Cursor → Cursor → Prop
  kind_eq {t u : Token} : Same t u → t.kind = u.kind
  same {t u : Token} : Taken t u → Same t u
  text_eq {t u : Token} : Taken t u → t.text = u.text
  current {c d : Cursor} : Related c d → Taken c.current d.current
  lookahead {c d : Cursor} : Related c d → Same c.lookahead d.lookahead
  move {c d e : Cursor} : Related c d → c.advance? = some e →
    ∃ f, d.advance? = some f ∧ Related e f
  depth_eq {c d : Cursor} : Related c d → c.depth = d.depth
  withDepth {c d : Cursor} (n : Nat) : Related c d →
    Related { c with depth := n } { d with depth := n }

namespace Simulation

variable (S : Simulation) {c d e : Cursor} {α α' β β' : Type}

/-- Where the one cursor cannot move on, neither can the other. -/
theorem advance?_eq_none (h : S.Related c d) (hc : c.advance? = none) : d.advance? = none := by
  rw [Cursor.advance?_eq_none_iff] at hc ⊢
  rw [← S.kind_eq (S.lookahead h), hc]

/-- The cursors stand on tokens of the same kind. -/
theorem current_kind_eq (h : S.Related c d) : c.current.kind = d.current.kind :=
  S.kind_eq (S.same (S.current h))

/-- Two runs have ended on related cursors, with results that agree. -/
def Ends (R : α → β → Prop) (r : Except ParseError α × Cursor) (s : Except ParseError β × Cursor) :
    Prop :=
  S.Related r.2 s.2 ∧ Agree S.Taken S.Same R r.1 s.1

/-- Runs from related cursors end on related cursors, with results that agree. -/
def Respects (R : α → β → Prop) (p : Parse α) (q : Parse β) : Prop :=
  ∀ c d, S.Related c d → S.Ends R (p.run c) (q.run d)

/-- The parser goes from related cursors to related cursors, with the same values. -/
def Keeps (p : Parse α) : Prop :=
  S.Respects Eq p p

section

variable {S} {R : α → β → Prop} {Q : α' → β' → Prop}

/-- Where the one run succeeds, so does the other. -/
theorem Ends.exists_ok {a : α} {s : Except ParseError β × Cursor} (h : S.Ends R (.ok a, e) s) :
    ∃ b f, s = (.ok b, f) ∧ R a b ∧ S.Related e f := by
  obtain ⟨r, f⟩ := s
  obtain ⟨hrest, hresult⟩ := h
  cases hresult with
  | ok hab => exact ⟨_, f, rfl, hab, hrest⟩

/-- Where the one run fails, so does the other. -/
theorem Ends.exists_error {x : ParseError} {s : Except ParseError β × Cursor}
    (h : S.Ends R (.error x, e) s) :
    ∃ y f, s = (.error y, f) ∧ x.Matches S.Taken S.Same y ∧ S.Related e f := by
  obtain ⟨r, f⟩ := s
  obtain ⟨hrest, hresult⟩ := h
  cases hresult with
  | error hxy => exact ⟨_, f, rfl, hxy, hrest⟩

theorem Respects.exists_ok {p : Parse α} {q : Parse β} {a : α} (h : S.Respects R p q)
    (hcd : S.Related c d) (hp : p.run c = (.ok a, e)) :
    ∃ b f, q.run d = (.ok b, f) ∧ R a b ∧ S.Related e f := by
  have hends := h c d hcd
  rw [hp] at hends
  exact hends.exists_ok

theorem Respects.exists_error {p : Parse α} {q : Parse β} {x : ParseError} (h : S.Respects R p q)
    (hcd : S.Related c d) (hp : p.run c = (.error x, e)) :
    ∃ y f, q.run d = (.error y, f) ∧ x.Matches S.Taken S.Same y ∧ S.Related e f := by
  have hends := h c d hcd
  rw [hp] at hends
  exact hends.exists_error

/-! ### Moves -/

theorem pure {a : α} {b : β} (h : R a b) : S.Respects R (Pure.pure a) (Pure.pure b) :=
  fun _ _ hcd => ⟨hcd, .ok h⟩

/-- A sequence goes on from related cursors if the first part has related values, and ends with its
error otherwise. -/
theorem bind {p : Parse α} {q : Parse β} {f : α → Parse α'} {g : β → Parse β'}
    (hp : S.Respects R p q) (hf : ∀ a b, R a b → S.Respects Q (f a) (g b)) :
    S.Respects Q (p >>= f) (q >>= g) := by
  intro c d hcd
  cases hc : p.run c with
  | mk r c' =>
      cases r with
      | ok a =>
          obtain ⟨b, d', hd, hab, hrest⟩ := hp.exists_ok hcd hc
          rw [Parse.run_bind_ok f hc, Parse.run_bind_ok g hd]
          exact hf a b hab c' d' hrest
      | error x =>
          obtain ⟨y, d', hd, hxy, hrest⟩ := hp.exists_error hcd hc
          rw [Parse.run_bind_error f hc, Parse.run_bind_error g hd]
          exact ⟨hrest, .error hxy⟩

/-- A part that has equal values on both sides, in front of what depends on the value alone. -/
theorem Keeps.bind {p : Parse α} {f : α → Parse α'} {g : α → Parse β'} (hp : S.Keeps p)
    (hf : ∀ a, S.Respects Q (f a) (g a)) : S.Respects Q (p >>= f) (p >>= g) :=
  Simulation.bind hp fun a _ hab => hab ▸ hf a

theorem current_respects : S.Respects S.Taken Parse.current Parse.current :=
  fun _ _ h => ⟨h, .ok (S.current h)⟩

theorem lookahead_respects : S.Respects S.Same Parse.lookahead Parse.lookahead :=
  fun _ _ h => ⟨h, .ok (S.lookahead h)⟩

theorem fail {x y : Cause} {t u : Option Token}
    (h : ParseError.Matches S.Taken S.Same ⟨x, t⟩ ⟨y, u⟩) :
    S.Respects R (Parse.fail x t) (Parse.fail y u) :=
  fun _ _ hcd => ⟨hcd, .error h⟩

/-- Nothing comes after an error. -/
theorem fail_bind {x y : Cause} {t u : Option Token} {f : α → Parse α'} {g : β → Parse β'}
    (h : ParseError.Matches S.Taken S.Same ⟨x, t⟩ ⟨y, u⟩) :
    S.Respects Q (Parse.fail x t >>= f) (Parse.fail y u >>= g) :=
  fun _ _ hcd => ⟨hcd, .error h⟩

theorem advance : S.Keeps Parse.advance := by
  intro c d h
  cases hc : c.advance? with
  | none =>
      rw [Parse.run_advance_of_none hc, Parse.run_advance_of_none (S.advance?_eq_none h hc)]
      exact ⟨h, .ok rfl⟩
  | some e =>
      obtain ⟨f, hf, hef⟩ := S.move h hc
      rw [Parse.run_advance_of_some hc, Parse.run_advance_of_some hf]
      exact ⟨hef, .ok rfl⟩

theorem countBlocks (f : Nat → Nat) : S.Keeps (Parse.countBlocks f) := by
  intro c d h
  rw [Parse.run_countBlocks, Parse.run_countBlocks, S.depth_eq h]
  exact ⟨S.withDepth _ h, .ok rfl⟩

theorem advanceTo (w : Wanted) : S.Keeps (Parse.advanceTo w) := by
  refine advance.bind fun moved => ?_
  cases moved with
  | true => exact pure rfl
  | false => exact bind lookahead_respects fun t u htu => fail (.of_token _ htu)

theorem expect (k : Kind) : S.Respects S.Taken (Parse.expect k) (Parse.expect k) := by
  refine bind lookahead_respects fun t u htu => ?_
  rw [← S.kind_eq htu]
  split
  · exact advance.bind fun _ => current_respects
  · exact fail (.of_token _ htu)

theorem accept (k : Kind) : S.Keeps (Parse.accept k) := by
  refine bind lookahead_respects fun t u htu => ?_
  rw [← S.kind_eq htu]
  split
  · exact advance.bind fun _ => pure rfl
  · exact pure rfl

/-! ### Repetition -/

/-- A fold takes the same steps: by induction on its run, one continuation after the other. -/
theorem foldAhead {next : Kind → Option (α → Parse α)} (a : α)
    (hnext : ∀ k step, next k = some step → ∀ a, S.Keeps (step a)) :
    S.Keeps (Parse.foldAhead next a) := by
  intro c d hcd
  show S.Ends Eq (Parse.runFoldAhead next a c) _
  fun_induction Parse.runFoldAhead next a c generalizing d with
  | case1 a c hnone =>
      -- the kind of the next token decides how a fold goes on, and it is the same on both sides
      rw [S.kind_eq (S.lookahead hcd)] at hnone
      rw [Parse.run_foldAhead_of_none hnone]
      exact ⟨hcd, .ok rfl⟩
  | case2 a c step hstep hc =>
      rw [Parse.run_foldAhead_of_advance?_none (S.advance?_eq_none hcd hc)]
      exact ⟨hcd, .ok rfl⟩
  | case3 a c step hstep c' hc b e he ih =>
      obtain ⟨d', hd, hmoved⟩ := S.move hcd hc
      rw [S.kind_eq (S.lookahead hcd)] at hstep
      obtain ⟨b', f, hf, rfl, hrest⟩ := (hnext _ step hstep a).exists_ok hmoved he
      rw [Parse.run_foldAhead_of_ok hstep hd hf]
      exact ih f hrest
  | case4 a c step hstep c' hc x e he =>
      obtain ⟨d', hd, hmoved⟩ := S.move hcd hc
      rw [S.kind_eq (S.lookahead hcd)] at hstep
      obtain ⟨y, f, hf, hxy, hrest⟩ := (hnext _ step hstep a).exists_error hmoved he
      rw [Parse.run_foldAhead_of_error hstep hd hf]
      exact ⟨hrest, .error hxy⟩

/-- The items up to a closing token, by induction on their run. -/
theorem itemsUntil {item : Parse α} {x y : ParseError} (closing : Kind)
    (hxy : x.Matches S.Taken S.Same y) (hitem : S.Keeps item) :
    S.Respects Eq (Parse.itemsUntil closing x item) (Parse.itemsUntil closing y item) := by
  intro c d hcd
  show S.Ends Eq (Parse.runItemsUntil closing x item c) _
  fun_induction Parse.runItemsUntil closing x item c generalizing d with
  | case1 c hc =>
      -- here it is the kind of the current token
      rw [S.current_kind_eq hcd] at hc
      rw [Parse.run_itemsUntil_of_eq hc]
      exact ⟨hcd, .ok rfl⟩
  | case2 c hc err c' hrun =>
      rw [S.current_kind_eq hcd] at hc
      obtain ⟨err', d', hd, herr, hrest⟩ := hitem.exists_error hcd hrun
      rw [Parse.run_itemsUntil_of_error hc hd]
      exact ⟨hrest, .error herr⟩
  | case3 c hc a c' hrun hmove =>
      rw [S.current_kind_eq hcd] at hc
      obtain ⟨b, d', hd, -, hrest⟩ := hitem.exists_ok hcd hrun
      rw [Parse.run_itemsUntil_of_none hc hd (S.advance?_eq_none hrest hmove)]
      exact ⟨hrest, .error hxy⟩
  | case4 c hc a c' hrun e hmove as f hf ih =>
      rw [S.current_kind_eq hcd] at hc
      obtain ⟨b, d', hd, rfl, hrest⟩ := hitem.exists_ok hcd hrun
      obtain ⟨g, hg, hmoved⟩ := S.move hrest hmove
      have hlater := ih g hmoved
      rw [hf] at hlater
      obtain ⟨bs, f', hf', rfl, hend⟩ := hlater.exists_ok
      rw [Parse.run_itemsUntil_of_some hc hd hg, hf']
      exact ⟨hend, .ok rfl⟩
  | case5 c hc a c' hrun e hmove err f hf ih =>
      rw [S.current_kind_eq hcd] at hc
      obtain ⟨b, d', hd, rfl, hrest⟩ := hitem.exists_ok hcd hrun
      obtain ⟨g, hg, hmoved⟩ := S.move hrest hmove
      have hlater := ih g hmoved
      rw [hf] at hlater
      obtain ⟨err', f', hf', herr, hend⟩ := hlater.exists_error
      rw [Parse.run_itemsUntil_of_some hc hd hg, hf']
      exact ⟨hend, .error herr⟩

end

/-! ## The forms of the language -/

section

variable {S} {expression : Int → Parse Node} (h : ∀ least, S.Keeps (expression least))

/-! ### Statements -/

include h in
theorem value : S.Keeps (Parse.value expression) := by
  refine (h _).bind fun e => ?_
  exact (accept .semicolon).bind fun _ => pure rfl

include h in
theorem binding : S.Keeps (Parse.binding expression) := by
  refine bind (expect .ident) fun name name' hname => ?_
  refine bind (expect .assign) fun _ _ _ => ?_
  refine (advanceTo .letValue).bind fun _ => ?_
  refine (value h).bind fun v => ?_
  rw [S.text_eq hname]
  exact pure rfl

include h in
theorem returning : S.Keeps (Parse.returning expression) := by
  refine (advanceTo .returnValue).bind fun _ => ?_
  exact (value h).bind fun _ => pure rfl

include h in
theorem expressionStatement : S.Keeps (Parse.expressionStatement expression) :=
  (value h).bind fun _ => pure rfl

include h in
theorem statement : S.Keeps (Parse.statement expression) := by
  refine bind current_respects fun t u htu => ?_
  rw [S.kind_eq (S.same htu)]
  split
  · exact binding h
  · exact returning h
  · exact expressionStatement h

include h in
/-- The opening brace is quoted by the error for a block that is not closed. -/
theorem block : S.Keeps (Parse.block expression) := by
  refine bind current_respects fun opening opening' hopening => ?_
  refine (countBlocks _).bind fun _ => ?_
  refine advance.bind fun moved => ?_
  cases moved with
  | true =>
      have hitems := itemsUntil .rbrace (.of_token .unclosedBlock (S.same hopening)) (statement h)
      exact bind hitems fun ss ss' hss => hss ▸ (countBlocks _).bind fun _ => pure rfl
  | false => exact fail_bind (.of_token .unclosedBlock (S.same hopening))

/-! ### Operands -/

theorem integerLiteral : S.Keeps Parse.integerLiteral := by
  refine bind current_respects fun t u htu => ?_
  rw [S.text_eq htu]
  split
  · exact pure rfl
  · exact fail (.of_token _ (S.same htu))
  · exact fail (.of_token _ (S.same htu))

include h in
theorem unary : S.Keeps (Parse.unary expression) := by
  refine bind current_respects fun t u htu => ?_
  rw [S.text_eq htu]
  refine (advanceTo _).bind fun _ => ?_
  exact (h _).bind fun _ => pure rfl

include h in
/-- The opening parenthesis is quoted by its place in the error for a group that is not closed. -/
theorem group : S.Keeps (Parse.group expression) := by
  refine bind current_respects fun opening opening' hopening => ?_
  refine (advanceTo .groupBody).bind fun _ => ?_
  refine (h _).bind fun e => ?_
  refine bind lookahead_respects fun next next' hnext => ?_
  refine (accept .rparen).bind fun closed => ?_
  cases closed with
  | true => exact pure rfl
  | false =>
      rw [S.kind_eq hnext]
      exact fail_bind ⟨.group hopening, .some hnext⟩

include h in
theorem conditional : S.Keeps (Parse.conditional expression) := by
  refine bind (expect .lparen) fun _ _ _ => ?_
  refine (advanceTo .condition).bind fun _ => ?_
  refine (h _).bind fun condition => ?_
  refine bind (expect .rparen) fun _ _ _ => ?_
  refine bind (expect .lbrace) fun _ _ _ => ?_
  refine (block h).bind fun consequence => ?_
  refine (accept .elseWord).bind fun more => ?_
  cases more with
  | true =>
      refine bind (expect .lbrace) fun _ _ _ => ?_
      exact (block h).bind fun _ => pure rfl
  | false => exact pure rfl

theorem listed {α : Type} {first next : Parse α} (hfirst : S.Keeps first) (hnext : S.Keeps next) :
    S.Keeps (Parse.listed first next) := by
  refine (accept .rparen).bind fun closed => ?_
  cases closed with
  | true => exact pure rfl
  | false =>
      refine hfirst.bind fun item => ?_
      refine Keeps.bind (foldAhead [item] fun k step hstep items => ?_) fun items => ?_
      · split at hstep
        · obtain rfl := Option.some.inj hstep
          exact hnext.bind fun _ => pure rfl
        · exact absurd hstep (by simp)
      · exact bind (expect .rparen) fun _ _ _ => pure rfl

theorem parameter : S.Keeps Parse.parameter := by
  refine bind (expect .ident) fun name name' hname => ?_
  rw [S.text_eq hname]
  exact pure rfl

theorem parameters : S.Keeps Parse.parameters :=
  listed parameter parameter

include h in
theorem function : S.Keeps (Parse.function expression) := by
  refine bind (expect .lparen) fun _ _ _ => ?_
  refine parameters.bind fun ps => ?_
  refine bind (expect .lbrace) fun _ _ _ => ?_
  exact (block h).bind fun _ => pure rfl

include h in
theorem operand : S.Keeps (Parse.operand expression) := by
  refine bind current_respects fun t u htu => ?_
  rw [S.kind_eq (S.same htu), S.text_eq htu]
  split
  · exact pure rfl
  · exact integerLiteral
  · exact pure rfl
  · exact group h
  · exact conditional h
  · exact function h
  · split
    · exact unary h
    · exact fail (.of_token _ (S.same htu))

/-! ### Continuations -/

include h in
theorem argument (w : Wanted) : S.Keeps (Parse.argument expression w) :=
  (advanceTo w).bind fun _ => h _

include h in
theorem arguments : S.Keeps (Parse.arguments expression) :=
  listed (argument h .firstArgument) (argument h .nextArgument)

include h in
theorem call (callee : Node) : S.Keeps (Parse.call expression callee) :=
  (arguments h).bind fun _ => pure rfl

include h in
theorem binary (left : Node) : S.Keeps (Parse.binary expression left) := by
  refine bind current_respects fun t u htu => ?_
  rw [S.kind_eq (S.same htu), S.text_eq htu]
  refine (advanceTo _).bind fun _ => ?_
  exact (h _).bind fun _ => pure rfl

include h in
theorem climb (least : Int) (left : Node) : S.Keeps (Parse.climb expression least left) := by
  refine foldAhead left fun k step hstep left => ?_
  split at hstep
  · obtain ⟨x, -, rfl⟩ := Option.map_eq_some_iff.1 hstep
    cases x with
    | binary => exact binary h left
    | call => exact call h left
  · exact absurd hstep (by simp)

end

section

variable {S}

/-! ## Expressions -/

/-- Every parser of expressions is respected: by induction on how deeply they may be nested. -/
theorem expression (limit : Nat) (least : Int) : S.Keeps (Parse.expression limit least) := by
  induction limit generalizing least with
  | zero => exact bind current_respects fun t u htu => fail (.of_token _ (S.same htu))
  | succ limit ih => exact (operand ih).bind fun left => climb ih least left

/-! ## Recovery and programs -/

theorem skip_of_goOn {j k : Nat} (h : Skip.at c.current.kind c.lookahead.kind k = .goOn j) :
    c.skip k = (c.advance?.map (Cursor.skip j)).getD c := by
  rw [Cursor.skip, h]
  dsimp only
  split
  · next hc => rw [hc]; rfl
  · next e hc => rw [hc]; rfl

/-- Skipping depends on kinds and on the blocks that are open. -/
theorem skip (h : S.Related c d) (k : Nat) : S.Related (c.skip k) (d.skip k) := by
  fun_induction Cursor.skip k c generalizing d with
  | case1 k c hskip =>
      rw [S.current_kind_eq h, S.kind_eq (S.lookahead h)] at hskip
      rw [Cursor.skip, hskip]
      exact h
  | case2 k c hskip =>
      rw [S.current_kind_eq h, S.kind_eq (S.lookahead h)] at hskip
      rw [Cursor.skip, hskip]
      show S.Related (c.advance?.getD c) (d.advance?.getD d)
      cases hc : c.advance? with
      | none => rwa [S.advance?_eq_none h hc]
      | some e =>
          obtain ⟨f, hf, hef⟩ := S.move h hc
          rwa [hf]
  | case3 k c j hskip hc =>
      rw [S.current_kind_eq h, S.kind_eq (S.lookahead h)] at hskip
      rw [skip_of_goOn hskip, S.advance?_eq_none h hc]
      exact h
  | case4 k c j hskip e hc ih =>
      obtain ⟨f, hf, hef⟩ := S.move h hc
      rw [S.current_kind_eq h, S.kind_eq (S.lookahead h)] at hskip
      rw [skip_of_goOn hskip, hf]
      exact ih hef

theorem recover (h : S.Related c d) : S.Related c.recover d.recover := by
  show S.Related (Cursor.skip c.depth _) (Cursor.skip d.depth _)
  rw [S.depth_eq h]
  exact skip (S.withDepth 0 h) _

/-- Attempts that begin and end on related cursors, with outcomes that agree. -/
structure Attempts (a b : Attempt) : Prop where
  start : S.Related a.start b.start
  outcome : Agree S.Taken S.Same Eq a.outcome b.outcome
  stop : S.Related a.stop b.stop

theorem attempt (h : S.Related c d) (limit : Nat) :
    S.Attempts (c.attempt limit) (d.attempt limit) := by
  have hends := statement (expression limit) c d h
  cases hrun : (Parse.statement (Parse.expression limit)).run c with
  | mk r e =>
      rw [hrun] at hends
      cases r with
      | ok s =>
          obtain ⟨s', f, hf, rfl, hef⟩ := hends.exists_ok
          rw [Cursor.attempt_of_ok hrun, Cursor.attempt_of_ok hf]
          exact ⟨h, .ok rfl, hef⟩
      | error x =>
          obtain ⟨y, f, hf, hxy, hef⟩ := hends.exists_error
          rw [Cursor.attempt_of_error hrun, Cursor.attempt_of_error hf]
          exact ⟨h, .error hxy, recover hef⟩

/-- Programs are read in step, one attempt after the other. -/
theorem attempts (h : S.Related c d) (limit : Nat) :
    List.Forall₂ S.Attempts (c.attempts limit) (d.attempts limit) := by
  fun_induction Cursor.attempts c limit generalizing d with
  | case1 c hc =>
      rw [Cursor.attempts_of_none (S.advance?_eq_none h hc)]
      exact .nil
  | case2 c e hc ih =>
      -- recovery leaves related cursors too, so the next attempt begins on such
      obtain ⟨f, hf, hef⟩ := S.move h hc
      rw [Cursor.attempts_of_some hf]
      exact .cons (attempt hef limit) (ih (attempt hef limit).stop)

theorem finish (h : S.Related c d) (limit : Nat) :
    S.Related (c.finish limit) (d.finish limit) := by
  fun_induction Cursor.attempts c limit generalizing d with
  | case1 c hc =>
      rw [Cursor.finish_of_none hc, Cursor.finish_of_none (S.advance?_eq_none h hc)]
      exact h
  | case2 c e hc ih =>
      obtain ⟨f, hf, hef⟩ := S.move h hc
      rw [Cursor.finish_of_some hc, Cursor.finish_of_some hf]
      exact ih (attempt hef limit).stop

/-- To read a program begins with a move: it is enough that the cursors are related after it. -/
theorem outcomes_of_move (hstop : c.advance? = none → d.advance? = none)
    (hmove : ∀ e, c.advance? = some e → ∃ f, d.advance? = some f ∧ S.Related e f) (limit : Nat) :
    List.Forall₂ (Agree S.Taken S.Same Eq) (c.parse limit).outcomes (d.parse limit).outcomes := by
  have hattempts : List.Forall₂ S.Attempts (c.attempts limit) (d.attempts limit) := by
    cases hc : c.advance? with
    | none =>
        rw [Cursor.attempts_of_none hc, Cursor.attempts_of_none (hstop hc)]
        exact .nil
    | some e =>
        obtain ⟨f, hf, hef⟩ := hmove e hc
        rw [Cursor.attempts_of_some hc, Cursor.attempts_of_some hf]
        exact .cons (attempt hef limit) (attempts (attempt hef limit).stop limit)
  show List.Forall₂ _ ((c.attempts limit).map Attempt.outcome) ((d.attempts limit).map Attempt.outcome)
  rw [List.forall₂_map_left_iff, List.forall₂_map_right_iff]
  exact hattempts.imp fun _ _ hab => hab.outcome

theorem outcomes (h : S.Related c d) (limit : Nat) :
    List.Forall₂ (Agree S.Taken S.Same Eq) (c.parse limit).outcomes (d.parse limit).outcomes :=
  outcomes_of_move (S.advance?_eq_none h) (fun _ => S.move h) limit

/-- From related cursors the same statements are parsed, and the errors that are found are alike. -/
theorem parse (h : S.Related c d) (limit : Nat) :
    (c.parse limit).program = (d.parse limit).program ∧
      List.Forall₂ (ParseError.Alike S.Same) (c.parse limit).errors (d.parse limit).errors :=
  ParseResult.alike_of_agree S.same (outcomes h limit)

end

end Simulation

/-! ## Cursors that show related tokens -/

namespace Cursor

variable {T : Token → Token → Prop} {c d e : Cursor}

/-- The tokens that the cursors show and have still to show are related, one by one up to the end of
input, and as many blocks are open. -/
structure Shows (T : Token → Token → Prop) (c d : Cursor) : Prop where
  current : T c.current d.current
  upcoming : List.Forall₂ T c.upcoming d.upcoming
  final : T c.final d.final
  depth_eq : c.depth = d.depth

/-- A cursor that has as many tokens to show as one that cannot move on cannot do so either. -/
theorem advance?_eq_none_of_forall₂ (hup : List.Forall₂ T c.upcoming d.upcoming)
    (hc : c.advance? = none) : d.advance? = none := by
  rw [upcoming_eq_nil_iff.2 (advance?_eq_none_iff.1 hc), List.forall₂_nil_left_iff] at hup
  exact advance?_eq_none_of_upcoming hup

/-- A move brings cursors together on related tokens, wherever they have stood before. -/
theorem exists_shows_of_advance? (hup : List.Forall₂ T c.upcoming d.upcoming)
    (hfinal : T c.final d.final) (hdepth : c.depth = d.depth) (hc : c.advance? = some e) :
    ∃ f, d.advance? = some f ∧ e.Shows T f := by
  rw [upcoming_of_advance? hc, List.forall₂_cons_left_iff] at hup
  obtain ⟨u, us, htu, hrest, hd⟩ := hup
  obtain ⟨f, hf, hcurrent, hus⟩ := exists_advance?_of_upcoming hd
  refine ⟨f, hf, ?_, ?_, ?_, ?_⟩
  · rwa [hcurrent]
  · rwa [hus]
  · rwa [final_of_advance? hc, final_of_advance? hf]
  · rw [depth_of_advance? hc, depth_of_advance? hf, hdepth]

namespace Shows

theorem lookahead (h : c.Shows T d) : T c.lookahead d.lookahead := by
  rw [lookahead_eq_getD, lookahead_eq_getD]
  have hup := h.upcoming
  cases hc : c.upcoming with
  | nil =>
      rw [hc, List.forall₂_nil_left_iff] at hup
      rw [hup]
      exact h.final
  | cons t ts =>
      rw [hc, List.forall₂_cons_left_iff] at hup
      obtain ⟨u, us, htu, -, hd⟩ := hup
      rw [hd]
      exact htu

theorem exists_advance? (h : c.Shows T d) (hc : c.advance? = some e) :
    ∃ f, d.advance? = some f ∧ e.Shows T f :=
  exists_shows_of_advance? h.upcoming h.final h.depth_eq hc

/-- To show related tokens is a simulation, if these are of the same kind and text. -/
def simulation (hkind : ∀ {t u : Token}, T t u → t.kind = u.kind)
    (htext : ∀ {t u : Token}, T t u → t.text = u.text) : Simulation where
  Same := T
  Taken := T
  Related := Shows T
  kind_eq := hkind
  same := id
  text_eq := htext
  current := current
  lookahead := lookahead
  move := exists_advance?
  depth_eq := depth_eq
  withDepth _ h := ⟨h.current, h.upcoming, h.final, rfl⟩

end Shows

end Cursor

end FnLang
