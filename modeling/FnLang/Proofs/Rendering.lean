/- # FnLang.Proofs.Rendering — canonical texts are read back as the trees they were written for.

Rendering puts every operator between parentheses and ends every statement, so the text of a tree
has one derivation in the grammar, and that derivation builds the tree again.  This holds of the
trees whose nodes fit their places (`Node.Fits`): names that are words and not reserved, literals
without a sign, the operators of the language, blocks where blocks belong.

The induction follows the places.  What is said of a node is that its text, in front of an end of
lexemes, is read as tokens that derive it (`Node.Spelled`), and each form is put together from the
texts of its parts by the rules of `Spells`.  Parentheses count as a level of nesting, and the
parser has a limit for these: `Node.nesting` is how deep it has to go.
-/
import FnLang.Node.Render
import FnLang.Proofs.Program
import FnLang.Proofs.Spelling

namespace FnLang

open Parse Text

namespace Node

/-! ## Well-formed trees -/

/-- The places in a tree. -/
inductive Role where
  | expression | parameter | block | statement | program
  deriving DecidableEq, Repr

/-- A name is a word that is not reserved. -/
def IsName (s : String) : Prop :=
  Lexeme.isWord s.toList = true ∧ s.toList ∉ Kind.reserved.map Prod.fst

/-- The node fits the place, and so do the nodes below it. -/
inductive Fits : Role → Node → Prop
  | identifier {s : String} : IsName s → Fits .expression (.identifier s)
  | integer {v : Int} : 0 ≤ v → v ≤ Text.Numeral.maxLiteral → Fits .expression (.integer v)
  | boolean {b : Bool} : Fits .expression (.boolean b)
  | function {ps : List Node} {b : Node} : (∀ p ∈ ps, Fits .parameter p) → Fits .block b →
      Fits .expression (.function ps b)
  | unary {op : String} {e : Node} : op ∈ ["!", "-"] → Fits .expression e →
      Fits .expression (.unary op e)
  | binary {op : String} {a b : Node} : op ∈ ["+", "-", "*", "/", "==", "!=", "<", ">"] →
      Fits .expression a → Fits .expression b → Fits .expression (.binary a op b)
  | conditional {c b : Node} : Fits .expression c → Fits .block b →
      Fits .expression (.conditional c b none)
  | alternative {c a b : Node} : Fits .expression c → Fits .block a → Fits .block b →
      Fits .expression (.conditional c a (some b))
  | call {f : Node} {as : List Node} : Fits .expression f → (∀ a ∈ as, Fits .expression a) →
      Fits .expression (.call f as)
  | parameter {s : String} : IsName s → Fits .parameter (.identifier s)
  | block {ss : List Node} : (∀ s ∈ ss, Fits .statement s) → Fits .block (.block ss)
  | binding {s : String} {e : Node} : IsName s → Fits .expression e →
      Fits .statement (.binding (.identifier s) e)
  | returning {e : Node} : Fits .expression e → Fits .statement (.returning e)
  | statement {e : Node} : Fits .expression e → Fits .statement (.expression e)
  | program {ss : List Node} : (∀ s ∈ ss, Fits .statement s) → Fits .program (.program ss)

mutual

/-- How deeply expressions stand inside one another in the text of a tree.  An operator stands in
parentheses, which are an expression of their own, and so is its right operand inside it. -/
def nesting : Node → Nat
  | identifier _ | integer _ | boolean _ => 1
  | function _ b => b.nesting + 1
  | unary _ e => e.nesting + 2
  | binary a _ b => max a.nesting (b.nesting + 1) + 1
  | conditional c a none => max c.nesting a.nesting + 1
  | conditional c a (some b) => max (max c.nesting a.nesting) b.nesting + 1
  | call f as => max f.nesting (nestingAll as + 1)
  | binding _ e | returning e | expression e => e.nesting
  | block ss | program ss => nestingAll ss
  | formless _ _ => 0

/-- The same for several nodes. -/
def nestingAll : List Node → Nat
  | [] => 0
  | a :: as => max a.nesting (nestingAll as)

end

theorem nesting_le_of_mem {a : Node} {as : List Node} (h : a ∈ as) : a.nesting ≤ nestingAll as := by
  induction as with
  | nil => simp at h
  | cons b bs ih =>
      rw [nestingAll]
      rcases List.mem_cons.1 h with rfl | h
      · exact Nat.le_max_left _ _
      · exact Nat.le_trans (ih h) (Nat.le_max_right _ _)

/-! ## Texts of forms -/

theorem bind_eq_ok {ε α β : Type} {x : Except ε α} {f : α → Except ε β} {a : α} {b : β}
    (hx : x = .ok a) (hf : f a = .ok b) : (x >>= f) = .ok b := by
  rw [hx]
  exact hf

section Texts

variable {a b c e f n : Node} {s t u : String} {as ss : List Node} {ts : List String}

theorem render_unary (op : String) (he : e.render = .ok t) :
    (unary op e).render = .ok ("(" ++ op ++ t ++ ")") :=
  bind_eq_ok he rfl

theorem render_binary (op : String) (ha : a.render = .ok s) (hb : b.render = .ok t) :
    (binary a op b).render = .ok ("(" ++ s ++ " " ++ op ++ " " ++ t ++ ")") :=
  bind_eq_ok ha (bind_eq_ok hb rfl)

theorem render_conditional (hc : c.render = .ok s) (ha : a.render = .ok t) :
    (conditional c a none).render = .ok ("if (" ++ s ++ ") " ++ t) :=
  bind_eq_ok hc (bind_eq_ok ha rfl)

theorem render_alternative (hc : c.render = .ok s) (ha : a.render = .ok t)
    (hb : b.render = .ok u) : (conditional c a (some b)).render =
      .ok ("if (" ++ s ++ ") " ++ t ++ " else " ++ u) :=
  bind_eq_ok hc (bind_eq_ok ha (bind_eq_ok hb rfl))

theorem render_function (has : renderAll as = .ok ts) (hb : b.render = .ok t) :
    (function as b).render = .ok ("fn (" ++ ", ".intercalate ts ++ ") " ++ t) :=
  bind_eq_ok has (bind_eq_ok hb rfl)

theorem render_call (has : renderAll as = .ok ts) (hf : f.render = .ok t) :
    (call f as).render = .ok (t ++ "(" ++ ", ".intercalate ts ++ ")") :=
  bind_eq_ok has (bind_eq_ok hf rfl)

theorem render_binding (hn : n.render = .ok s) (he : e.render = .ok t) :
    (binding n e).render = .ok ("let " ++ s ++ " = " ++ t ++ ";") :=
  bind_eq_ok hn (bind_eq_ok he rfl)

theorem render_returning (he : e.render = .ok t) :
    (returning e).render = .ok ("return " ++ t ++ ";") :=
  bind_eq_ok he rfl

theorem render_block (hss : renderStatements (a :: ss) = .ok ts) :
    (block (a :: ss)).render = .ok ("\x7b " ++ " ".intercalate ts ++ " \x7d") :=
  bind_eq_ok hss rfl

theorem render_program (hss : renderStatements ss = .ok ts) :
    (program ss).render = .ok ("\n".intercalate ts) :=
  bind_eq_ok hss rfl

theorem renderAll_cons (ha : a.render = .ok t) (has : renderAll as = .ok ts) :
    renderAll (a :: as) = .ok (t :: ts) :=
  bind_eq_ok ha (bind_eq_ok has rfl)

theorem renderStatements_cons (ha : a.render = .ok t) (has : renderStatements as = .ok ts) :
    renderStatements (a :: as) = .ok ((t ++ a.terminator) :: ts) :=
  bind_eq_ok ha (bind_eq_ok has rfl)

end Texts

/-- The text of the node is read as tokens with the property. -/
def Spelled (a : Node) (P : List Token → Prop) : Prop :=
  ∃ t, a.render = .ok t ∧ Spells t.toList P

end Node

/-! ## Several nodes -/

/-- The rest of a list in parentheses ends the item before it. -/
theorem ends_rest (ts : List String) :
    Ends ((ts.flatMap fun u => ',' :: ' ' :: u.toList) ++ [')']) := by
  cases ts with
  | nil => exact ends_cons rfl
  | cons => exact ends_cons rfl

section Items

variable {n : Nat} {i : Item} {a : Node} {as : List Node}

/-- The items after the first ones, and the parenthesis that ends the list. -/
theorem spells_rest
    (h : ∀ a ∈ as, a.Spelled fun ts => ∃ x, Derives n (i.phrase x a) ts) :
    ∃ ts, Node.renderAll as = .ok ts ∧ ∀ {y : Ending} {es : List Node} {us : List Token},
      Derives n (.started i y es) us →
      Spells ((ts.flatMap fun u => ',' :: ' ' :: u.toList) ++ [')'])
        fun vs => Derives n (.items i (es ++ as)) (us ++ vs) := by
  induction as with
  | nil =>
      refine ⟨[], rfl, fun hs => ?_⟩
      refine .symbol rfl fun rp hrp _ => .nil ?_
      rw [List.append_nil]
      exact .items hs hrp
  | cons a as ih =>
      obtain ⟨⟨t, ht, hspells⟩, has⟩ := List.forall_mem_cons.1 h
      obtain ⟨ts, hts, hrest⟩ := ih has
      refine ⟨t :: ts, Node.renderAll_cons ht hts, fun {y es us} hs => ?_⟩
      rw [List.flatMap_cons, List.append_assoc]
      refine .symbol rfl fun comma hcomma _ => .blank rfl ?_
      refine .append hspells (ends_rest ts) fun vs ⟨x, hvs⟩ => ?_
      refine (hrest (.nextItem hs hcomma hvs)).imp fun ws hws => ?_
      rw [List.append_assoc, List.append_assoc] at hws
      exact hws

/-- A list in parentheses. -/
theorem spells_items (h : ∀ a ∈ as, a.Spelled fun ts => ∃ x, Derives n (i.phrase x a) ts) :
    ∃ ts, Node.renderAll as = .ok ts ∧
      Spells ('(' :: ((", ".intercalate ts).toList ++ [')'])) (Derives n (.items i as)) := by
  cases as with
  | nil =>
      refine ⟨[], rfl, ?_⟩
      refine .symbol rfl fun lp hlp _ => ?_
      exact .symbol rfl fun rp hrp _ => .nil (.noItems hlp hrp)
  | cons a as =>
      obtain ⟨⟨t, ht, hspells⟩, has⟩ := List.forall_mem_cons.1 h
      obtain ⟨ts, hts, hrest⟩ := spells_rest has
      refine ⟨t :: ts, Node.renderAll_cons ht hts, ?_⟩
      rw [toList_intercalate_cons, List.append_assoc]
      refine .symbol rfl fun lp hlp _ => ?_
      exact .append hspells (ends_rest ts) fun us ⟨x, hus⟩ => hrest (.firstItem hlp hus)

end Items

section Statements

variable {n : Nat} {ss : List Node} {sep : String} {c : Char}

/-- Statements with a blank between any two of them. -/
theorem spells_statements (hsep : sep.toList = [c]) (hc : isBlank c = true)
    (hends : enders.contains c = true)
    (h : ∀ s ∈ ss, ∃ t, s.render = .ok t ∧
      Spells (t ++ s.terminator).toList (Derives n (.statement .semicolon s))) :
    ∃ ts, Node.renderStatements ss = .ok ts ∧
      Spells (sep.intercalate ts).toList (Derives n (.statements ss)) := by
  induction ss with
  | nil => exact ⟨[], rfl, by simpa using Spells.nil .noStatements⟩
  | cons s ss ih =>
      obtain ⟨⟨t, ht, hspells⟩, hss⟩ := List.forall_mem_cons.1 h
      obtain ⟨ts, hts, hrest⟩ := ih hss
      refine ⟨(t ++ s.terminator) :: ts, Node.renderStatements_cons ht hts, ?_⟩
      have hlist {us vs : List Token} (hus : Derives n (.statement .semicolon s) us)
          (hvs : Derives n (.statements ss) vs) : Derives n (.statements (s :: ss)) (us ++ vs) :=
        .statements hus hvs fun hne => absurd rfl hne
      by_cases hnil : ts = []
      · subst hnil
        rw [String.intercalate_nil] at hrest
        rw [String.intercalate_singleton, ← List.append_nil (t ++ s.terminator).toList]
        exact .append hspells ends_nil fun us hus => hrest.imp fun vs hvs => hlist hus hvs
      · rw [String.intercalate_cons_of_ne_nil hnil, String.toList_append, String.toList_append,
          hsep, List.append_assoc]
        exact .append hspells (ends_cons hends) fun us hus =>
          .blank hc (hrest.imp fun vs hvs => hlist hus hvs)

end Statements

/-! ## One node -/

/-- What is read from the text of a node that fits a place.  For an expression this includes that its
text does not begin like an equality sign, which would go together with a mark of negation. -/
def Node.Role.Spelled (n : Nat) (a : Node) : Role → Prop
  | expression => ∃ t, a.render = .ok t ∧ t.toList.head? ≠ some '=' ∧
      Spells t.toList fun ts => ∃ x, Derives n (.expression .application x a) ts
  | parameter => a.Spelled fun ts => ∃ x, Derives n (.parameter x a) ts
  | block => a.Spelled (Derives n (.block a))
  | statement => ∃ t, a.render = .ok t ∧
      Spells (t ++ a.terminator).toList (Derives n (.statement .semicolon a))
  | program => a.Spelled fun ts => ∃ ss, a = .program ss ∧ Derives n (.statements ss) ts

namespace Node.Role.Spelled

variable {n : Nat} {a b c e f : Node} {u : List Char}

theorem toExpression (h : expression.Spelled n e) :
    e.Spelled fun ts => ∃ x, Derives n (.expression .equality x e) ts := by
  obtain ⟨t, ht, -, hspells⟩ := h
  exact ⟨t, ht, hspells.imp fun ts ⟨x, hts⟩ => ⟨x, hts.loosen (by decide)⟩⟩

/-- An expression in parentheses. -/
theorem group (h : Spells u fun ts => ∃ x, Derives n (.expression .equality x e) ts) :
    Spells ('(' :: (u ++ [')'])) fun ts => ∃ x, Derives (n + 1) (.expression .application x e) ts := by
  refine .symbol rfl fun lp hlp _ => ?_
  refine .append h (ends_cons rfl) fun us ⟨x, hus⟩ => ?_
  refine .symbol rfl fun rp hrp _ => .nil ?_
  exact ⟨.plain, .tighter (.group hlp hus hrp)⟩

theorem unary {op : String} (hop : op ∈ ["!", "-"]) (he : expression.Spelled n e) :
    expression.Spelled (n + 2) (.unary op e) := by
  obtain ⟨t, ht, hhead, hspells⟩ := he
  refine ⟨_, render_unary op ht, by simp, ?_⟩
  have happly {o : Token} {ts : List Token} (ho : o.kind ∈ [Kind.bang, .minus])
      (hts : ∃ x, Derives n (.expression .application x e) ts) :
      ∃ x, Derives (n + 1) (.expression .equality x (.unary o.text e)) (o :: ts) := by
    obtain ⟨x, hts⟩ := hts
    exact ⟨x, (Derives.unary ho (.tighter hts)).loosen (by decide)⟩
  simp only [List.mem_cons, List.not_mem_nil, or_false] at hop
  rcases hop with rfl | rfl
  · have hbody : Spells ('!' :: t.toList) fun ts =>
        ∃ x, Derives (n + 1) (.expression .equality x (.unary "!" e)) ts := by
      refine .bang hhead fun o ho htext => hspells.imp fun ts hts => ?_
      rw [← htext]
      exact happly (by simp [ho]) hts
    simpa using group hbody
  · have hbody : Spells ('-' :: t.toList) fun ts =>
        ∃ x, Derives (n + 1) (.expression .equality x (.unary "-" e)) ts := by
      refine .symbol rfl fun o ho htext => hspells.imp fun ts hts => ?_
      have := happly (o := o) (by simp [ho]) hts
      rwa [htext] at this
    simpa using group hbody

/-- The operators between two operands are operators of a level. -/
theorem exists_level {op : String} (hop : op ∈ ["+", "-", "*", "/", "==", "!=", "<", ">"]) :
    ∃ l ∈ Level.ofOperators, ∃ k ∈ l.operators, Kind.operators.lookup op.toList = some k := by
  revert op
  decide

theorem binary {op : String} (hop : op ∈ ["+", "-", "*", "/", "==", "!=", "<", ">"])
    (ha : expression.Spelled (n + 1) a) (hb : expression.Spelled n b) :
    expression.Spelled (n + 2) (.binary a op b) := by
  obtain ⟨s, hs, -, hsa⟩ := ha
  obtain ⟨t, ht, -, htb⟩ := hb
  obtain ⟨l, hl, k, hk, hop⟩ := exists_level hop
  refine ⟨_, render_binary op hs ht, by simp, ?_⟩
  have hrank : Level.application.rank ≤ l.rank ∧ Level.application.rank ≤ l.tighter.rank ∧
      l.rank ≤ Level.equality.rank := by
    clear hk
    revert l
    decide
  have hbody : Spells (s.toList ++ ' ' :: (op.toList ++ ' ' :: t.toList)) fun ts =>
      ∃ x, Derives (n + 1) (.expression .equality x (.binary a op b)) ts := by
    refine .append hsa (ends_cons rfl) fun us ⟨x, hus⟩ => .blank rfl ?_
    refine .operator hop fun o ho htext => htb.imp fun vs ⟨y, hvs⟩ => ⟨y, ?_⟩
    rw [String.ofList_toList] at htext
    rw [← htext]
    exact (Derives.binary (hus.loosen hrank.1) (by rwa [ho]) (hvs.loosen hrank.2.1)).loosen
      hrank.2.2
  simpa using group hbody

/-- A name, wherever one may stand. -/
theorem name {s : String} (hs : IsName s) {v : List Char} {P : List Token → Prop} (hv : Ends v)
    (h : ∀ t : Token, t.kind = .ident → t.text = s → Spells v fun ts => P (t :: ts)) :
    Spells (s.toList ++ v) P := by
  refine .word hs.1 hv fun t hkind htext => h t ?_ (by rw [htext, String.ofList_toList])
  rw [hkind, Kind.ofWord, List.lookup_eq_none_iff.2 fun e he => ?_]
  · rfl
  · rw [bne_iff_ne]
    intro heq
    exact hs.2 (by rw [heq]; exact List.mem_map_of_mem he)

theorem identifier {s : String} (hs : IsName s) :
    expression.Spelled (n + 1) (.identifier s) := by
  refine ⟨s, rfl, ?_, ?_⟩
  · intro hhead
    obtain ⟨cs, hcs⟩ := List.head?_eq_some_iff.1 hhead
    have hword := hs.1
    rw [hcs, Lexeme.isWord] at hword
    exact absurd (Bool.and_eq_true_iff.1 hword).1 (by decide)
  · rw [← List.append_nil s.toList]
    refine name hs ends_nil fun t ht htext => .nil ⟨.plain, ?_⟩
    rw [← htext]
    exact .tighter (.identifier ht)

theorem integer {v : Int} (h : 0 ≤ v) (hv : v ≤ Text.Numeral.maxLiteral) :
    expression.Spelled (n + 1) (.integer v) := by
  have hread := Text.Numeral.readLiteral_write h hv
  obtain ⟨m, rfl⟩ := Int.eq_ofNat_of_zero_le h
  have hlist : (Text.Numeral.write m).toList = Nat.toDigits 10 m := String.toList_ofList
  refine ⟨Text.Numeral.write m, rfl, ?_, ?_⟩
  · rw [hlist]
    intro hhead
    have hdigit := Nat.isDigit_of_mem_toDigits (by decide) (by decide) (List.mem_of_mem_head? hhead)
    exact absurd hdigit (by decide)
  · rw [hlist, ← List.append_nil (Nat.toDigits 10 m)]
    refine .number m ends_nil fun t ht htext => .nil ⟨.plain, ?_⟩
    exact .tighter (.integer ht (by rw [htext, hread]))

theorem boolean {v : Bool} : expression.Spelled (n + 1) (.boolean v) := by
  have hword {w : List Char} (hw : Lexeme.isWord w = true) (hk : Kind.ofWord w = .boolean)
      (hv : (String.ofList w == "true") = v) :
      Spells w fun ts => ∃ x, Derives (n + 1) (.expression .application x (.boolean v)) ts := by
    rw [← List.append_nil w]
    refine .word hw ends_nil fun t ht htext => .nil ⟨.plain, ?_⟩
    rw [← hv, ← htext]
    exact .tighter (.boolean (ht.trans hk))
  cases v with
  | true => exact ⟨"true", rfl, by simp, hword (w := ['t', 'r', 'u', 'e']) rfl rfl (by decide)⟩
  | false =>
      exact ⟨"false", rfl, by simp, hword (w := ['f', 'a', 'l', 's', 'e']) rfl rfl (by decide)⟩

theorem function {ps : List Node} (hps : ∀ p ∈ ps, parameter.Spelled n p)
    (hb : block.Spelled n b) : expression.Spelled (n + 1) (.function ps b) := by
  obtain ⟨ts, hts, hitems⟩ := spells_items (i := .parameter) hps
  obtain ⟨t, ht, hblock⟩ := hb
  refine ⟨_, render_function hts ht, by simp, ?_⟩
  have hbody : Spells (['f', 'n'] ++ ' ' :: ('(' :: ((", ".intercalate ts).toList ++ [')']) ++
      ' ' :: t.toList)) fun us =>
        ∃ x, Derives (n + 1) (.expression .application x (.function ps b)) us := by
    refine .word rfl (ends_cons rfl) fun kw hkw _ => .blank rfl ?_
    refine .append hitems (ends_cons rfl) fun us hus => .blank rfl ?_
    refine hblock.imp fun vs hvs => ⟨.plain, ?_⟩
    exact .tighter (.function hkw hus hvs)
  simpa using hbody

theorem conditional (hc : expression.Spelled n c) (ha : block.Spelled n a) :
    expression.Spelled (n + 1) (.conditional c a none) := by
  obtain ⟨s, hs, hcondition⟩ := hc.toExpression
  obtain ⟨t, ht, hblock⟩ := ha
  refine ⟨_, render_conditional hs ht, by simp, ?_⟩
  have hbody : Spells (['i', 'f'] ++ ' ' :: '(' :: (s.toList ++ ')' :: ' ' :: t.toList)) fun us =>
      ∃ x, Derives (n + 1) (.expression .application x (.conditional c a none)) us := by
    refine .word rfl (ends_cons rfl) fun kw hkw _ => .blank rfl ?_
    refine .symbol rfl fun lp hlp _ => ?_
    refine .append hcondition (ends_cons rfl) fun us ⟨x, hus⟩ => ?_
    refine .symbol rfl fun rp hrp _ => .blank rfl ?_
    refine hblock.imp fun vs hvs => ⟨.conditional, ?_⟩
    exact .tighter (.conditional hkw hlp hus hrp hvs)
  simpa using hbody

theorem alternative (hc : expression.Spelled n c) (ha : block.Spelled n a)
    (hb : block.Spelled n b) : expression.Spelled (n + 1) (.conditional c a (some b)) := by
  obtain ⟨s, hs, hcondition⟩ := hc.toExpression
  obtain ⟨t, ht, hfirst⟩ := ha
  obtain ⟨u, hu, hsecond⟩ := hb
  refine ⟨_, render_alternative hs ht hu, by simp, ?_⟩
  have hbody : Spells (['i', 'f'] ++ ' ' :: '(' :: (s.toList ++ ')' :: ' ' ::
      (t.toList ++ ' ' :: (['e', 'l', 's', 'e'] ++ ' ' :: u.toList)))) fun us =>
        ∃ x, Derives (n + 1) (.expression .application x (.conditional c a (some b))) us := by
    refine .word rfl (ends_cons rfl) fun kw hkw _ => .blank rfl ?_
    refine .symbol rfl fun lp hlp _ => ?_
    refine .append hcondition (ends_cons rfl) fun us ⟨x, hus⟩ => ?_
    refine .symbol rfl fun rp hrp _ => .blank rfl ?_
    refine .append hfirst (ends_cons rfl) fun vs hvs => .blank rfl ?_
    refine .word rfl (ends_cons rfl) fun els hels _ => .blank rfl ?_
    refine hsecond.imp fun ws hws => ⟨.plain, ?_⟩
    exact .tighter (.alternative hkw hlp hus hrp hvs hels hws)
  simpa using hbody

theorem call {as : List Node} (hf : expression.Spelled (n + 1) f)
    (has : ∀ a ∈ as, expression.Spelled n a) : expression.Spelled (n + 1) (.call f as) := by
  obtain ⟨ts, hts, hitems⟩ := spells_items (i := .argument) fun a ha => (has a ha).toExpression
  obtain ⟨t, ht, hhead, hcallee⟩ := hf
  refine ⟨_, render_call hts ht, ?_, ?_⟩
  · cases htext : t.toList with
    | nil => simp [htext]
    | cons => simpa [htext] using hhead
  have hbody : Spells (t.toList ++ '(' :: ((", ".intercalate ts).toList ++ [')'])) fun us =>
      ∃ x, Derives (n + 1) (.expression .application x (.call f as)) us :=
    .append hcallee (ends_cons rfl) fun us ⟨x, hus⟩ =>
      hitems.imp fun vs hvs => ⟨.plain, .call hus hvs⟩
  simpa using hbody

/-- An expression at the end of a statement, with the semicolon. -/
theorem value {t : String} (h : Spells t.toList fun ts => ∃ x, Derives n (.expression .equality x e) ts) :
    Spells (t.toList ++ [';']) (Derives n (.value .semicolon e)) := by
  refine .append h (ends_cons rfl) fun us ⟨x, hus⟩ => ?_
  exact .symbol rfl fun semi hsemi _ => .nil (.ended hus hsemi)

theorem binding {s : String} (hs : IsName s) (he : expression.Spelled n e) :
    statement.Spelled n (.binding (.identifier s) e) := by
  obtain ⟨t, ht, hvalue⟩ := he.toExpression
  refine ⟨_, render_binding (s := s) rfl ht, ?_⟩
  have hbody : Spells (['l', 'e', 't'] ++ ' ' :: (s.toList ++ ' ' ::
      (['='] ++ ' ' :: (t.toList ++ [';'])))) (Derives n (.statement .semicolon
        (.binding (.identifier s) e))) := by
    refine .word rfl (ends_cons rfl) fun kw hkw _ => .blank rfl ?_
    refine name hs (ends_cons rfl) fun word hword htext => .blank rfl ?_
    refine .operator rfl fun eq heq _ => (value hvalue).imp fun ts hts => ?_
    rw [← htext]
    exact .binding hkw hword heq hts
  simpa [terminator] using hbody

theorem returning (he : expression.Spelled n e) : statement.Spelled n (.returning e) := by
  obtain ⟨t, ht, hvalue⟩ := he.toExpression
  refine ⟨_, render_returning ht, ?_⟩
  have hbody : Spells (['r', 'e', 't', 'u', 'r', 'n'] ++ ' ' :: (t.toList ++ [';']))
      (Derives n (.statement .semicolon (.returning e))) := by
    refine .word rfl (ends_cons rfl) fun kw hkw _ => .blank rfl ?_
    exact (value hvalue).imp fun ts hts => .returning hkw hts
  simpa [terminator] using hbody

theorem statement (he : expression.Spelled n e) : statement.Spelled n (.expression e) := by
  obtain ⟨t, ht, hvalue⟩ := he.toExpression
  refine ⟨t, ht, ?_⟩
  have hbody := (value hvalue).imp (Q := Derives n (.statement .semicolon (.expression e)))
    fun ts hts => .expression hts
  simpa [terminator] using hbody

theorem block {ss : List Node} (h : ∀ s ∈ ss, Role.statement.Spelled n s) :
    block.Spelled n (.block ss) := by
  cases ss with
  | nil =>
      refine ⟨"\x7b \x7d", rfl, ?_⟩
      refine .symbol rfl fun lb hlb _ => .blank rfl ?_
      exact .symbol rfl fun rb hrb _ => .nil (.block hlb .noStatements hrb)
  | cons s ss =>
      obtain ⟨ts, hts, hstatements⟩ := spells_statements (show " ".toList = [' '] from rfl) rfl rfl h
      refine ⟨_, render_block hts, ?_⟩
      have hbody : Spells ('\x7b' :: ' ' :: ((" ".intercalate ts).toList ++ [' ', '\x7d']))
          (Derives n (.block (.block (s :: ss)))) := by
        refine .symbol rfl fun lb hlb _ => .blank rfl ?_
        refine .append hstatements (ends_cons rfl) fun us hus => .blank rfl ?_
        exact .symbol rfl fun rb hrb _ => .nil (.block hlb hus hrb)
      simpa using hbody

theorem program {ss : List Node} (h : ∀ s ∈ ss, Role.statement.Spelled n s) :
    program.Spelled n (.program ss) := by
  obtain ⟨ts, hts, hstatements⟩ := spells_statements (show "\n".toList = ['\n'] from rfl) rfl rfl h
  exact ⟨_, render_program hts, hstatements.imp fun us hus => ⟨ss, rfl, hus⟩⟩

end Node.Role.Spelled

/-! ## Whole trees -/

namespace Node

/-- A parameter takes no nesting. -/
theorem Fits.spelled_parameter {p : Node} (h : Fits .parameter p) (n : Nat) :
    Role.parameter.Spelled n p := by
  cases h with
  | @parameter s hs =>
      refine ⟨s, rfl, ?_⟩
      rw [← List.append_nil s.toList]
      refine Role.Spelled.name hs ends_nil fun t ht htext => .nil ⟨.plain, ?_⟩
      rw [← htext]
      exact .parameter ht

/-- A well-formed node has a text, and the text is read as the node: by induction on the node. -/
theorem Fits.spelled {r : Role} {a : Node} (h : Fits r a) {n : Nat} (hn : a.nesting ≤ n) :
    r.Spelled n a := by
  have deeper {m n : Nat} (hm : m + 1 ≤ n) : ∃ k, n = k + 1 ∧ m ≤ k :=
    ⟨n - 1, by omega, by omega⟩
  have each {n : Nat} {as : List Node} (h : nestingAll as ≤ n) : ∀ a ∈ as, a.nesting ≤ n :=
    fun a ha => Nat.le_trans (nesting_le_of_mem ha) h
  induction h generalizing n with
  | identifier hs =>
      obtain ⟨k, rfl, -⟩ := deeper hn
      exact .identifier hs
  | integer h hv =>
      obtain ⟨k, rfl, -⟩ := deeper hn
      exact .integer h hv
  | boolean =>
      obtain ⟨k, rfl, -⟩ := deeper hn
      exact .boolean
  | function hps _ _ ihb =>
      rw [nesting] at hn
      obtain ⟨k, rfl, hk⟩ := deeper hn
      exact .function (fun p hp => (hps p hp).spelled_parameter k) (ihb hk)
  | unary hop _ ih =>
      rw [nesting] at hn
      obtain ⟨k, rfl, hk⟩ := deeper hn
      obtain ⟨j, rfl, hj⟩ := deeper hk
      exact .unary hop (ih hj)
  | binary hop _ _ iha ihb =>
      rw [nesting] at hn
      obtain ⟨k, rfl, hk⟩ := deeper hn
      obtain ⟨ha, hb⟩ := Nat.max_le.1 hk
      obtain ⟨j, rfl, hj⟩ := deeper hb
      exact .binary hop (iha ha) (ihb hj)
  | conditional _ _ ihc iha =>
      rw [nesting] at hn
      obtain ⟨k, rfl, hk⟩ := deeper hn
      obtain ⟨hc, ha⟩ := Nat.max_le.1 hk
      exact .conditional (ihc hc) (iha ha)
  | alternative _ _ _ ihc iha ihb =>
      rw [nesting] at hn
      obtain ⟨k, rfl, hk⟩ := deeper hn
      obtain ⟨hca, hb⟩ := Nat.max_le.1 hk
      obtain ⟨hc, ha⟩ := Nat.max_le.1 hca
      exact .alternative (ihc hc) (iha ha) (ihb hb)
  | call _ _ ihf ihas =>
      rw [nesting] at hn
      obtain ⟨hf, has⟩ := Nat.max_le.1 hn
      obtain ⟨k, rfl, hk⟩ := deeper has
      exact .call (ihf hf) fun a ha => ihas a ha (each hk a ha)
  | parameter hs => exact (Fits.parameter hs).spelled_parameter n
  | block _ ih =>
      rw [nesting] at hn
      exact .block fun s hs => ih s hs (each hn s hs)
  | binding hs _ ih => exact .binding hs (ih hn)
  | returning _ ih => exact .returning (ih hn)
  | statement _ ih => exact .statement (ih hn)
  | program _ ih =>
      rw [nesting] at hn
      exact .program fun s hs => ih s hs (each hn s hs)

end Node

/-! ## Rendering and parsing -/

/-- A text that is read as statements is parsed to them, without an error. -/
theorem Spells.parse {t : String} {ss : List Node}
    (h : Spells t.toList (Derives nestingLimit (.statements ss))) :
    (parseText t).errors = [] ∧ (parseText t).program = .program ss := by
  refine Derives.parse ?_
  obtain ⟨ts, l, hpending, hts⟩ := h {} [] ends_nil
  rw [List.append_nil, TokenSource.pending_of_eof (s := .text ⟨[], l⟩) rfl, List.append_nil]
    at hpending
  rw [Cursor.upcoming_start]
  show Derives nestingLimit (.statements ss) (TokenSource.text ⟨t.toList, {}⟩).pending
  rwa [hpending]

/-- The text of a well-formed program is parsed to the program, and the text of a well-formed
expression to the program that consists of it; neither has an error, if it is not nested deeper than
the parser goes. -/
theorem parseText_render :
    (∀ p : Node, p.Fits .program → p.nesting ≤ nestingLimit → ∃ t, p.render = .ok t ∧
      (parseText t).errors = [] ∧ (parseText t).program = p) ∧
    (∀ e : Node, e.Fits .expression → e.nesting ≤ nestingLimit → ∃ t, e.render = .ok t ∧
      (parseText t).errors = [] ∧ (parseText t).program = .program [.expression e]) := by
  constructor
  · intro p hp hn
    obtain ⟨t, ht, hspells⟩ := hp.spelled hn
    refine ⟨t, ht, ?_⟩
    cases hp with
    | @program ss _ =>
        refine Spells.parse (hspells.imp fun ts hts => ?_)
        obtain ⟨ss', heq, hts⟩ := hts
        rwa [Node.program.inj heq]
  · intro e he hn
    obtain ⟨t, ht, hspells⟩ := (he.spelled hn).toExpression
    refine ⟨t, ht, Spells.parse (hspells.imp fun ts ⟨x, hts⟩ => ?_)⟩
    -- the end of input ends the statement that has no semicolon
    have hlist := Derives.statements (.expression (.bare hts)) .noStatements (by simp)
    rwa [List.append_nil] at hlist

/-- The tree of `if ((x < 1)) { } else { return (-x); }(2)`: a conditional for a callee. -/
def callOfConditional : Node :=
  .call (.conditional (.binary (.identifier "x") "<" (.integer 1)) (.block [])
    (some (.block [.returning (.unary "-" (.identifier "x"))]))) [.integer 2]

/-- The tree of `let f = fn (x) { };` and `f(true);`. -/
def bindingThenCall : Node :=
  .program [.binding (.identifier "f") (.function [.identifier "x"] (.block [])),
    .expression (.call (.identifier "f") [.boolean true])]

/-- A program and an expression that are read back. -/
theorem parseText_render_examples :
    (∃ t, bindingThenCall.render = .ok t ∧ (parseText t).errors = [] ∧
      (parseText t).program = bindingThenCall) ∧
    (∃ t, callOfConditional.render = .ok t ∧ (parseText t).errors = [] ∧
      (parseText t).program = .program [.expression callOfConditional]) := by
  have name {s : String} (hs : Lexeme.isWord s.toList = true)
      (hr : s.toList ∉ Kind.reserved.map Prod.fst) : (Node.identifier s).Fits .expression :=
    .identifier ⟨hs, hr⟩
  constructor
  · refine parseText_render.1 _ (.program ?_) (by decide)
    refine List.forall_mem_cons.2 ⟨?_, List.forall_mem_singleton.2 ?_⟩
    · exact .binding ⟨by decide, by decide⟩
        (.function (List.forall_mem_singleton.2 (.parameter ⟨by decide, by decide⟩))
          (.block (by simp)))
    · exact .statement (.call (name (by decide) (by decide)) (List.forall_mem_singleton.2 .boolean))
  · refine parseText_render.2 _ (.call (.alternative ?_ (.block (by simp)) (.block ?_)) ?_) (by decide)
    · exact .binary (by decide) (name (by decide) (by decide)) (.integer (by decide) (by decide))
    · refine List.forall_mem_singleton.2 (.returning (.unary (by decide) ?_))
      exact name (by decide) (by decide)
    · exact List.forall_mem_singleton.2 (.integer (by decide) (by decide))

end FnLang
