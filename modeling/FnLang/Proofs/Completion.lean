/- # FnLang.Proofs.Completion — what is taken before reading breaks off can be finished.

A breakdown is a derivation with its end missing, and here is an end for it.  Every parser that waits
for the one that fails is given what it waits for: a name where an expression is due, an empty block
for a block, and the closing parenthesis or brace of what is open (`Breaks.completes`).

Two points need care.  Phrases that are given may not be nested less deeply than those that are read,
so the bound may grow; and where the limit on nesting is the cause, nothing is said.  In a block no
statement may be made up where none is begun: the statement before could go on with it.
-/
import FnLang.Proofs.Soundness

namespace FnLang

/-! ## Ends -/

/-- A token of the kind, without a text. -/
def Kind.token (k : Kind) : Token :=
  { kind := k, text := "" }

theorem Kind.kind_token (k : Kind) : k.token.kind = k := rfl

namespace Level

theorem equality_mem_readable : equality ∈ readable := by
  decide

theorem unary_mem_readable : unary ∈ readable := by
  decide

theorem mem_ofOperators {l : Level} {k : Kind} (h : k ∈ l.operators) : l ∈ ofOperators := by
  revert k
  cases l <;> decide

end Level

namespace Derives

/-- A name is an expression of every level. -/
theorem name (n : Nat) (l : Level) :
    Derives (n + 1) (.expression l .plain (.identifier "")) [Kind.ident.token] :=
  (Derives.identifier Kind.ident.kind_token).loosen (Nat.zero_le _)

theorem emptyBlock (n : Nat) :
    Derives n (.block (.block [])) [Kind.lbrace.token, Kind.rbrace.token] :=
  .block rfl .noStatements rfl

end Derives

/-- With more tokens after them, the tokens `x` are a phrase of the family `p`, for a bound on nesting
that is no less than `n`. -/
def Finishes {α : Type} (n : Nat) (p : Ending → α → Phrase) (x : List Token) : Prop :=
  ∃ (m : Nat) (ws : List Token) (y : Ending) (a : α), n ≤ m ∧ Derives m (p y a) (x ++ ws)

namespace Finishes

section

variable {α β : Type} {n k : Nat} {p : Ending → α → Phrase} {q : Ending → β → Phrase}
  {x z ts : List Token} {y : Ending} {a : α}

theorem of_derives (ts : List Token) (h : Derives n (p y a) (x ++ ts)) : Finishes n p x :=
  ⟨n, ts, y, a, Nat.le_refl n, h⟩

/-- With fewer tokens a phrase can be finished, too. -/
theorem front (h : Finishes n p (x ++ z)) : Finishes n p x := by
  obtain ⟨m, ws, y, a, hm, hd⟩ := h
  exact ⟨m, z ++ ws, y, a, hm, by rwa [← List.append_assoc]⟩

/-- What is begun before a phrase is finished with the phrase. -/
theorem after (h : Finishes n p x) (us : List Token) (hz : z = us ++ x)
    (hstep : ∀ {m y a ts}, n ≤ m → Derives m (p y a) ts →
      ∃ y' b, Derives (m + k) (q y' b) (us ++ ts)) : Finishes (n + k) q z := by
  obtain ⟨m, ws, y, a, hm, hd⟩ := h
  obtain ⟨y', b, hb⟩ := hstep hm hd
  refine ⟨m + k, ws, y', b, Nat.add_le_add_right hm k, ?_⟩
  rwa [hz, List.append_assoc]

/-- What is begun before a phrase is finished with the phrase and the tokens that close it. -/
theorem around (h : Finishes n p x) (us vs : List Token) (hz : z = us ++ x)
    (hstep : ∀ {m y a ts}, n ≤ m → Derives m (p y a) ts →
      ∃ y' b, Derives (m + k) (q y' b) (us ++ (ts ++ vs))) : Finishes (n + k) q z := by
  obtain ⟨m, ws, y, a, hm, hd⟩ := h
  obtain ⟨y', b, hb⟩ := hstep hm hd
  refine ⟨m + k, ws ++ vs, y', b, Nat.add_le_add_right hm k, ?_⟩
  rwa [hz, List.append_assoc, ← List.append_assoc x]

end

/-! ### Every form

What can be finished is closed under the rules of the grammar, whose last phrase is the one that is
not complete; what a form still wants after it is given. -/

section

variable {n : Nat} {i : Item} {l m : Level} {y : Ending} {a e s : Node} {es : List Node}
  {kw lb lp rp op : Token} {us vs x : List Token}

/-- Where nothing is begun, a name is an expression. -/
theorem name (n : Nat) (l : Level) : Finishes n (.expression l) [] :=
  ⟨n + 1, [Kind.ident.token], _, _, Nat.le_succ n, .name n l⟩

theorem unary (ho : op.kind ∈ [Kind.bang, Kind.minus]) (hl : l ∈ Level.readable)
    (h : Finishes n (.expression .unary) x) : Finishes (n + 1) (.expression l) (op :: x) := by
  refine h.after [op] rfl fun _ he => ?_
  exact ⟨_, _, (Derives.unary ho he).loosen (Level.unary_rank_le hl)⟩

theorem group (hl : lp.kind = .lparen) (h : Finishes n (.expression .equality) x) :
    Finishes (n + 1) (.expression l) (lp :: x) := by
  refine h.around [lp] [Kind.rparen.token] rfl fun _ he => ?_
  exact ⟨_, _, (Derives.group hl he rfl).loosen (Nat.zero_le _)⟩

theorem condition (hk : kw.kind = .ifWord) (hl : lp.kind = .lparen)
    (h : Finishes n (.expression .equality) x) :
    Finishes (n + 1) (.expression l) (kw :: lp :: x) := by
  refine h.around [kw, lp] [Kind.rparen.token, Kind.lbrace.token, Kind.rbrace.token] rfl
    fun _ he => ?_
  exact ⟨_, _, (Derives.conditional hk hl he rfl (.emptyBlock _)).loosen (Nat.zero_le _)⟩

theorem consequence (hk : kw.kind = .ifWord) (hl : lp.kind = .lparen)
    (he : Derives n (.expression .equality y e) us) (hr : rp.kind = .rparen)
    (h : Finishes n (fun _ => .block) x) :
    Finishes (n + 1) (.expression l) (kw :: lp :: (us ++ rp :: x)) := by
  refine h.after (kw :: lp :: (us ++ [rp])) (by simp) fun hm hb => ?_
  have hphrase := Derives.conditional hk hl (he.mono hm) hr hb
  exact ⟨_, _, by simpa using hphrase.loosen (Nat.zero_le _)⟩

theorem alternative {els : Token} (hk : kw.kind = .ifWord) (hl : lp.kind = .lparen)
    (he : Derives n (.expression .equality y e) us) (hr : rp.kind = .rparen)
    (ha : Derives n (.block a) vs) (hels : els.kind = .elseWord)
    (h : Finishes n (fun _ => .block) x) :
    Finishes (n + 1) (.expression l) (kw :: lp :: (us ++ rp :: (vs ++ els :: x))) := by
  refine h.after (kw :: lp :: (us ++ rp :: (vs ++ [els]))) (by simp) fun hm hb => ?_
  have hphrase := Derives.alternative hk hl (he.mono hm) hr (ha.mono hm) hels hb
  exact ⟨_, _, by simpa using hphrase.loosen (Nat.zero_le _)⟩

theorem parameters (hk : kw.kind = .fnWord) (h : Finishes n (fun _ => .items .parameter) x) :
    Finishes (n + 1) (.expression l) (kw :: x) := by
  refine h.around [kw] [Kind.lbrace.token, Kind.rbrace.token] rfl fun _ hp => ?_
  exact ⟨_, _, (Derives.function hk hp (.emptyBlock _)).loosen (Nat.zero_le _)⟩

theorem function (hk : kw.kind = .fnWord) (hp : Derives n (.items .parameter es) us)
    (h : Finishes n (fun _ => .block) x) : Finishes (n + 1) (.expression l) (kw :: (us ++ x)) := by
  refine h.after (kw :: us) rfl fun hm hb => ?_
  exact ⟨_, _, (Derives.function hk (hp.mono hm) hb).loosen (Nat.zero_le _)⟩

theorem right (he : Derives (n + 1) (.expression m y e) us) (ho : op.kind ∈ m.operators)
    (hm : m.continuations ⊆ l.continuations) (h : Finishes n (.expression m.tighter) x) :
    Finishes (n + 1) (.expression l) (us ++ op :: x) := by
  have hrank := Level.rank_le_of_mem ho (hm (Level.mem_continuations_of_mem_operators ho))
  refine h.after (us ++ [op]) (by simp) fun hle he' => ?_
  have hphrase := Derives.binary (he.mono (Nat.succ_le_succ hle)) ho he'
  exact ⟨_, _, by simpa using hphrase.loosen hrank⟩

theorem arguments (he : Derives (n + 1) (.expression .application y e) us)
    (hl : l ∈ Level.readable) (h : Finishes n (fun _ => .items .argument) x) :
    Finishes (n + 1) (.expression l) (us ++ x) := by
  refine h.after us rfl fun hle hitems => ?_
  have hphrase := Derives.call (he.mono (Nat.succ_le_succ hle)) hitems
  exact ⟨_, _, hphrase.loosen (Nat.le_trans (by decide) (Level.unary_rank_le hl))⟩

theorem firstItem (hl : lp.kind = .lparen) (h : Finishes n i.phrase x) :
    Finishes n (fun _ => .items i) (lp :: x) := by
  refine h.around (k := 0) [lp] [Kind.rparen.token] rfl fun _ hitem => ?_
  exact ⟨.plain, _, .items (.firstItem hl hitem) rfl⟩

theorem nextItem {comma : Token} (hst : Derives n (.started i y es) us)
    (hk : comma.kind = .comma) (h : Finishes n i.phrase x) :
    Finishes n (fun _ => .items i) (us ++ comma :: x) := by
  refine h.around (k := 0) (us ++ [comma]) [Kind.rparen.token] (by simp) fun hm hitem => ?_
  have hphrase := Derives.items (.nextItem (hst.mono hm) hk hitem) Kind.rparen.kind_token
  exact ⟨.plain, _, by simpa using hphrase⟩

/-- A block is finished with its statements; if there are none, with the brace alone. -/
theorem block (hl : lb.kind = .lbrace) (h : x ≠ [] → Finishes n (fun _ => .statements) x) :
    Finishes n (fun _ => .block) (lb :: x) := by
  by_cases hx : x = []
  · subst hx
    exact .of_derives (y := .plain) [Kind.rbrace.token] (.block hl .noStatements rfl)
  · refine (h hx).around (k := 0) [lb] [Kind.rbrace.token] rfl fun _ hss => ?_
    exact ⟨.plain, _, .block hl hss rfl⟩

theorem statement (h : Finishes n .statement x) : Finishes n (fun _ => .statements) x := by
  refine h.after (k := 0) [] rfl fun _ hs => ?_
  exact ⟨.plain, _, hs.single⟩

/-- What is begun after a statement does not go on with it, as its first token has closed it. -/
theorem laterStatement {k : Halt} (hs : Derives n (.statement y s) us)
    (hcloses : y.Closes (k.first x).kind) (h : x ≠ [] → Finishes n (fun _ => .statements) x) :
    Finishes n (fun _ => .statements) (us ++ x) := by
  cases x with
  | nil =>
      rw [List.append_nil]
      exact .of_derives (y := .plain) [] (by rw [List.append_nil]; exact hs.single)
  | cons t x =>
      obtain ⟨m, ws, _, ss, hm, hss⟩ := h (by simp)
      refine ⟨m, ws, .plain, s :: ss, hm, ?_⟩
      rw [List.append_assoc]
      refine .statements (hs.mono hm) hss fun hy u hu => ?_
      obtain rfl : t = u := Option.some.inj hu
      exact (hcloses hy).2.1

theorem binding {ident eq : Token} (hk : kw.kind = .letWord) (hn : ident.kind = .ident)
    (heq : eq.kind = .assign) (h : Finishes n (.expression .equality) x) :
    Finishes n .statement (kw :: ident :: eq :: x) := by
  refine h.after (k := 0) [kw, ident, eq] rfl fun _ he => ?_
  exact ⟨_, _, .binding hk hn heq (.bare he)⟩

theorem returning (hk : kw.kind = .returnWord) (h : Finishes n (.expression .equality) x) :
    Finishes n .statement (kw :: x) := by
  refine h.after (k := 0) [kw] rfl fun _ he => ?_
  exact ⟨_, _, .returning hk (.bare he)⟩

theorem bare (h : Finishes n (.expression .equality) x) : Finishes n .statement x := by
  refine h.after (k := 0) [] rfl fun _ he => ?_
  exact ⟨_, _, .expression (.bare he)⟩

end

end Finishes

/-! ## Breakdowns -/

/-- What has been taken of a goal can be finished.  Nothing is said of the statements of a block if none
is begun. -/
def Goal.Completes (n : Nat) (x : List Token) : Goal → Prop
  | .token _ => x = []
  | .next l _ | .expression l => l ∈ Level.readable → Finishes n (.expression l) x
  | .item i _ => Finishes n i.phrase x
  | .items i => Finishes n (fun _ => .items i) x
  | .body | .block => Finishes n (fun _ => .block) x
  | .statements _ => x ≠ [] → Finishes n (fun _ => .statements) x
  | .statement => Finishes n .statement x

namespace Breaks

variable {n : Nat} {g : Goal} {x : List Token} {h : Halt}

/-- What is taken before reading breaks off can be finished, unless expressions are nested too deeply.
The induction follows the rules: each of them leads to the place through a phrase that is begun, and
the phrase is finished after what is finished there.  Where a token is wanted that is missing, the
form is finished with more tokens than that one, and what is taken is the front of it. -/
theorem completes (hb : Breaks n g x h) (hcause : h.error.cause ≠ .nestedTooDeeply) :
    g.Completes n x := by
  induction hb with
  | token _ => exact rfl
  | @missing n l => exact fun _ => .name n l
  | next _ ih => exact ih hcause
  | @parameter n _ _ _ _ ih =>
      obtain rfl : _ = [] := ih hcause
      exact .of_derives [Kind.ident.token] (.parameter rfl)
  | argument _ ih => exact ih hcause Level.equality_mem_readable
  | @noBody n _ _ _ ih =>
      obtain rfl : _ = [] := ih hcause
      exact .of_derives (y := .plain) _ (.emptyBlock n)
  | body _ ih => exact ih hcause
  -- operands
  | nested => exact absurd rfl hcause
  | @noOperand n l | @malformed n l | @outOfRange n l => exact fun _ => .name (n + 1) l
  | unary ho _ ih => exact fun hl => .unary ho hl (ih hcause Level.unary_mem_readable)
  | group hl _ ih => exact fun _ => .group hl (ih hcause Level.equality_mem_readable)
  | @unclosed n l lp t y e us hl he _ _ =>
      intro _
      exact .group hl (.of_derives [] (by rwa [List.append_nil]))
  | @noCondition n l kw _ _ hk _ ih =>
      intro _
      obtain rfl : _ = [] := ih hcause
      exact .front (z := [Kind.lparen.token]) (.condition hk rfl (.name n .equality))
  | condition hk hl _ ih =>
      exact fun _ => .condition hk hl (ih hcause Level.equality_mem_readable)
  | openCondition hk hl he _ _ ih =>
      intro _
      obtain rfl : _ = [] := ih hcause
      exact .condition hk hl (.of_derives [] (by rwa [List.append_nil, List.append_nil]))
  | consequence hk hl he hr _ ih => exact fun _ => .consequence hk hl he hr (ih hcause)
  | alternative hk hl he hr ha hels _ ih =>
      exact fun _ => .alternative hk hl he hr ha hels (ih hcause)
  | @noParameters n l kw _ _ hk _ ih =>
      intro _
      obtain rfl : _ = [] := ih hcause
      have hitems : Derives n (.items .parameter []) [Kind.lparen.token, Kind.rparen.token] :=
        .noItems rfl rfl
      exact .parameters hk (.of_derives (y := .plain) _ hitems)
  | parameters hk _ ih => exact fun _ => .parameters hk (ih hcause)
  | function hk hp _ ih => exact fun _ => .function hk hp (ih hcause)
  -- what follows an operand
  | right he ho hm _ ih =>
      intro _
      exact .right he ho hm (ih hcause (Level.tighter_mem_readable (Level.mem_ofOperators ho)))
  | arguments he _ _ ih => exact fun hl => .arguments he hl (ih hcause)
  -- lists
  | firstItem hl _ _ ih => exact .firstItem hl (ih hcause)
  | nextItem hst hk _ ih => exact .nextItem hst hk (ih hcause)
  | openItems hst _ _ _ ih =>
      obtain rfl : _ = [] := ih hcause
      rw [List.append_nil]
      exact .of_derives (y := .plain) [Kind.rparen.token] (.items hst rfl)
  -- blocks and statements
  | block hl _ ih => exact .block hl (ih hcause)
  | unfinished _ => exact fun hx => absurd rfl hx
  | statement _ _ ih => exact fun _ => .statement (ih hcause)
  | laterStatement hs hcloses _ ih => exact fun _ => .laterStatement hs hcloses (ih hcause)
  | @noName n kw _ _ hk _ ih =>
      obtain rfl : _ = [] := ih hcause
      exact .front (z := [Kind.ident.token, Kind.assign.token])
        (.binding hk rfl rfl (.name n .equality))
  | @noAssign n kw ident _ _ hk hn _ ih =>
      obtain rfl : _ = [] := ih hcause
      exact .front (z := [Kind.assign.token]) (.binding hk hn rfl (.name n .equality))
  | binding hk hn heq _ ih => exact .binding hk hn heq (ih hcause Level.equality_mem_readable)
  | returning hk _ ih => exact .returning hk (ih hcause Level.equality_mem_readable)
  | bare _ _ _ ih => exact .bare (ih hcause Level.equality_mem_readable)

end Breaks

end FnLang
