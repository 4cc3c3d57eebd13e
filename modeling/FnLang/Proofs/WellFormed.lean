/- # FnLang.Proofs.WellFormed — the trees that come out of a text.

Rendering is faithful on the trees whose nodes fit their places (`Node.Fits`).  This module shows
that parsing a text builds no others, whatever the text is: the statements among malformed ones, and
those that parsing goes on with in the middle of a malformed one, are as good as those of a text
without errors.

The invariant is on tokens, and it begins in the lexer: a lexeme shows characters that its kind is
read from (`Lexeme.isText_first`).  The parser makes no texts.  The names, literals and operators of a
tree are those of the tokens it is derived from, so what is asked of a node is known of a token
(`Derives.fits`); and a statement that is recorded is derived from tokens of the text, wherever
parsing took it up.
-/
import FnLang.Proofs.Cover
import FnLang.Proofs.Rendering

namespace FnLang

open Text

/-! ## Texts of lexemes -/

/-- The characters are a text of the kind: a word that is not reserved for a name, digits for an
integer, and its spelling for an operator.  Of other kinds nothing is asked. -/
structure Kind.IsText (k : Kind) (cs : List Char) : Prop where
  name : k = .ident → Lexeme.isWord cs = true ∧ cs ∉ Kind.reserved.map Prod.fst
  digits : k = .int → ∀ c ∈ cs, isDigit c = true
  operator : k ∈ Kind.operators.map Prod.snd → (cs, k) ∈ Kind.operators

namespace Kind.IsText

variable {k : Kind} {cs : List Char}

theorem of_not_mem (h : k ∉ .ident :: .int :: Kind.operators.map Prod.snd) : k.IsText cs := by
  rw [List.mem_cons, List.mem_cons, not_or, not_or] at h
  exact ⟨fun hk => absurd hk h.1, fun hk => absurd hk h.2.1, fun hk => absurd hk h.2.2⟩

theorem ident (hword : Lexeme.isWord cs = true) (hfree : cs ∉ Kind.reserved.map Prod.fst) :
    Kind.ident.IsText cs :=
  ⟨fun _ => ⟨hword, hfree⟩, fun hk => absurd hk (by decide), fun hk => absurd hk (by decide)⟩

theorem int (h : ∀ c ∈ cs, isDigit c = true) : Kind.int.IsText cs :=
  ⟨fun hk => absurd hk (by decide), fun _ => h, fun hk => absurd hk (by decide)⟩

theorem symbol (h : (cs, k) ∈ Kind.symbols) : k.IsText cs := by
  rcases List.mem_append.1 h with hoperator | hseparator
  · have hplain : ∀ e ∈ Kind.operators, e.2 ≠ .ident ∧ e.2 ≠ .int := by decide
    obtain ⟨hident, hint⟩ := hplain _ hoperator
    exact ⟨fun hk => absurd hk hident, fun hk => absurd hk hint, fun _ => hoperator⟩
  · have hplain : ∀ e ∈ Kind.separators, e.2 ∉ .ident :: .int :: Kind.operators.map Prod.snd := by
      decide
    exact of_not_mem (hplain _ hseparator)

/-- A word is a name unless it is reserved, and no reserved word is a name. -/
theorem ofWord (h : Lexeme.isWord cs = true) : (Kind.ofWord cs).IsText cs := by
  rcases Kind.ofWord_cases cs with hmem | ⟨hfree, hname⟩
  · have hplain : ∀ e ∈ Kind.reserved, e.2 ∉ .ident :: .int :: Kind.operators.map Prod.snd := by
      decide
    exact of_not_mem (hplain _ hmem)
  · rw [hname]
    exact .ident h hfree

end Kind.IsText

namespace Lexeme

variable {c : Char} {cs : List Char}

theorem isText_number (cs : List Char) : (number cs).kind.IsText (number cs).text := by
  unfold number
  dsimp only
  split
  · exact .of_not_mem (k := .float) (by decide)
  · exact .int (List.all_eq_true.1 List.all_takeWhile)

theorem isText_quotation (cs : List Char) : (quotation cs).kind.IsText (quotation cs).text := by
  unfold quotation
  dsimp only
  split
  · exact .of_not_mem (k := .illegal) (by decide)
  · exact .of_not_mem (k := .string) (by decide)

theorem isText_ofSymbol? {x : Lexeme} (h : ofSymbol? cs = some x) : x.kind.IsText x.text := by
  obtain ⟨k, hk, rfl⟩ := Option.map_eq_some_iff.1 h
  exact .symbol (mem_of_lookup_eq_some hk)

/-- The lexeme at the start of a text shows a text of its kind. -/
theorem isText_first (c : Char) (cs : List Char) : (first c cs).kind.IsText (first c cs).text := by
  unfold first
  split
  · next hstart => exact .ofWord (isWord_takeWhile hstart)
  split
  · exact isText_number _
  split
  · exact isText_quotation _
  cases hsymbol : symbol? (c :: cs) with
  | none => exact .of_not_mem (k := .illegal) (by decide)
  | some x =>
      rcases Option.or_eq_some_iff.1 hsymbol with htwo | ⟨-, hone⟩
      · exact isText_ofSymbol? htwo
      · exact isText_ofSymbol? hone

end Lexeme

/-! ## Tokens of texts -/

/-- The token shows a text of its kind. -/
def Token.Spelt (t : Token) : Prop :=
  t.kind.IsText t.text.toList

theorem Input.spelt_nextToken (i : Input) : i.nextToken.1.Spelt := by
  unfold nextToken
  dsimp only
  split
  · exact Kind.IsText.of_not_mem (k := .eof) (by decide)
  · next c cs _ =>
      show Kind.IsText _ (String.ofList (Lexeme.first c cs).text).toList
      rw [String.toList_ofList]
      exact Lexeme.isText_first c cs

namespace TokenSource

/-- What holds of the next token of every input holds of every token that a text hands out. -/
theorem forall_mem_pending {P : Token → Prop} (hP : ∀ i : Input, P i.nextToken.1) (i : Input) :
    ∀ t ∈ (text i).pending, P t := by
  intro t h
  generalize hs : text i = s at h
  fun_induction pending s generalizing i with
  | case1 => simp at h
  | case2 s _ ih =>
      subst hs
      rcases List.mem_cons.1 h with rfl | h
      · exact hP i
      · exact ih _ rfl h

/-- Every token that a text hands out shows a text of its kind. -/
theorem spelt_of_mem_pending {i : Input} {t : Token} (h : t ∈ (text i).pending) : t.Spelt :=
  forall_mem_pending Input.spelt_nextToken i t h

end TokenSource

namespace Token.Spelt

variable {t : Token}

theorem isName (h : t.Spelt) (hk : t.kind = .ident) : Node.IsName t.text :=
  h.name hk

/-- The value of an integer token is no less than zero, since there is no sign among its digits. -/
theorem literal_bounds (h : t.Spelt) (hk : t.kind = .int) {v : Int}
    (hv : Numeral.readLiteral t.text = .ok v) : 0 ≤ v ∧ v ≤ Numeral.maxLiteral := by
  -- a minus sign is the only way below zero that the range check lets through
  have hsigns : ∀ c ∈ trimBy Numeral.isSurround t.text.toList, c ∉ ['+', '-'] := by
    intro c hc hsign
    have hdigit := h.digits hk c (mem_of_mem_trimBy hc)
    have hplus : isDigit '+' = false := isDigit_of_ascii (by decide)
    have hminus : isDigit '-' = false := isDigit_of_ascii (by decide)
    simp only [List.mem_cons, List.not_mem_nil, or_false] at hsign
    rcases hsign with rfl | rfl
    · rw [hplus] at hdigit
      exact Bool.false_ne_true hdigit
    · rw [hminus] at hdigit
      exact Bool.false_ne_true hdigit
  unfold Numeral.readLiteral Numeral.read? at hv
  rw [Numeral.signed?_of_not_mem hsigns] at hv
  cases hread : Numeral.unsigned? (trimBy Numeral.isSurround t.text.toList) with
  | none =>
      rw [hread] at hv
      exact absurd hv (by simp)
  | some n =>
      rw [hread] at hv
      change (if Numeral.minLiteral ≤ (n : Int) ∧ (n : Int) ≤ Numeral.maxLiteral then
        Except.ok (n : Int) else .error Numeral.Fault.outOfRange) = _ at hv
      split at hv
      · next hbounds =>
          obtain rfl := Except.ok.inj hv
          exact ⟨Int.natCast_nonneg n, hbounds.2⟩
      · exact absurd hv (by simp)

/-- The text of an operator is a spelling of its kind. -/
theorem operator_text (h : t.Spelt) {ks : List Kind} {texts : List String} (hk : t.kind ∈ ks)
    (hks : ∀ k ∈ ks, k ∈ Kind.operators.map Prod.snd)
    (htexts : ∀ e ∈ Kind.operators, e.2 ∈ ks → String.ofList e.1 ∈ texts) : t.text ∈ texts := by
  have hmem := htexts _ (h.operator (hks _ hk)) hk
  rwa [String.ofList_toList] at hmem

theorem unary_text (h : t.Spelt) (hk : t.kind ∈ [Kind.bang, Kind.minus]) : t.text ∈ ["!", "-"] :=
  h.operator_text hk (by decide) (by decide)

theorem binary_text (h : t.Spelt) {l : Level} (hk : t.kind ∈ l.operators) :
    t.text ∈ ["+", "-", "*", "/", "==", "!=", "<", ">"] := by
  cases l <;> exact h.operator_text hk (by decide) (by decide)

end Token.Spelt

/-! ## Trees of tokens -/

/-- The place of what stands between the commas of a list. -/
def Item.role : Item → Node.Role
  | parameter => .parameter
  | argument => .expression

/-- What the phrase builds fits its place. -/
def Phrase.Fits : Phrase → Prop
  | .expression _ _ e | .value _ e => e.Fits .expression
  | .parameter _ e => e.Fits .parameter
  | .started i _ es | .items i es => ∀ e ∈ es, e.Fits i.role
  | .block b => b.Fits .block
  | .statement _ s => s.Fits .statement
  | .statements ss => ∀ s ∈ ss, s.Fits .statement

theorem Item.fits {i : Item} {x : Ending} {e : Node} (h : (i.phrase x e).Fits) : e.Fits i.role := by
  cases i with
  | parameter => exact h
  | argument => exact h

/-- What is derived from tokens that show texts of their kinds fits its place.  The induction is on the
derivation: a rule gives a tree whose parts fit, or a name, a literal or an operator of a token. -/
theorem Derives.fits {n : Nat} {p : Phrase} {ts : List Token} (h : Derives n p ts)
    (hts : ∀ t ∈ ts, t.Spelt) : p.Fits := by
  induction h with
  | identifier ht => exact .identifier ((hts _ (by simp)).isName ht)
  | integer ht hv =>
      obtain ⟨hnonneg, hmax⟩ := (hts _ (by simp)).literal_bounds ht hv
      exact .integer hnonneg hmax
  | boolean _ => exact .boolean
  | group _ _ _ ih => exact ih fun t ht => hts t (by simp [ht])
  | conditional _ _ _ _ _ ihc iha =>
      have hc := ihc fun t ht => hts t (by simp [ht])
      have ha := iha fun t ht => hts t (by simp [ht])
      exact .conditional hc ha
  | alternative _ _ _ _ _ _ _ ihc iha ihb =>
      have hc := ihc fun t ht => hts t (by simp [ht])
      have ha := iha fun t ht => hts t (by simp [ht])
      have hb := ihb fun t ht => hts t (by simp [ht])
      exact .alternative hc ha hb
  | function _ _ _ ihp ihb =>
      have hp := ihp fun t ht => hts t (by simp [ht])
      have hb := ihb fun t ht => hts t (by simp [ht])
      exact .function hp hb
  | call _ _ ihf iha =>
      have hf := ihf fun t ht => hts t (by simp [ht])
      have ha := iha fun t ht => hts t (by simp [ht])
      exact .call hf ha
  | unary hop _ ih =>
      have he := ih fun t ht => hts t (by simp [ht])
      exact .unary ((hts _ (by simp)).unary_text hop) he
  | binary _ hop _ iha ihb =>
      have ha := iha fun t ht => hts t (by simp [ht])
      have hb := ihb fun t ht => hts t (by simp [ht])
      exact .binary ((hts _ (by simp)).binary_text hop) ha hb
  | tighter _ ih => exact ih hts
  | parameter ht => exact .parameter ((hts _ (by simp)).isName ht)
  | firstItem _ _ ih =>
      have he := Item.fits (ih fun t ht => hts t (by simp [ht]))
      exact List.forall_mem_singleton.2 he
  | nextItem _ _ _ ihs ih =>
      have hes := ihs fun t ht => hts t (by simp [ht])
      have he := Item.fits (ih fun t ht => hts t (by simp [ht]))
      exact List.forall_mem_append.2 ⟨hes, List.forall_mem_singleton.2 he⟩
  | noItems _ _ => exact fun e he => absurd he (by simp)
  | items _ _ ih => exact ih fun t ht => hts t (by simp [ht])
  | block _ _ _ ih =>
      have hss := ih fun t ht => hts t (by simp [ht])
      exact .block hss
  | bare _ ih => exact ih hts
  | ended _ _ ih => exact ih fun t ht => hts t (by simp [ht])
  | binding _ hname _ _ ih =>
      have he := ih fun t ht => hts t (by simp [ht])
      exact .binding ((hts _ (by simp)).isName hname) he
  | returning _ _ ih =>
      have he := ih fun t ht => hts t (by simp [ht])
      exact .returning he
  | expression _ ih => exact .statement (ih hts)
  | noStatements => exact fun s hs => absurd hs (by simp)
  | statements _ _ _ ihs ihss =>
      have hs := ihs fun t ht => hts t (by simp [ht])
      have hss := ihss fun t ht => hts t (by simp [ht])
      exact List.forall_mem_cons.2 ⟨hs, hss⟩

/-! ## Programs -/

/-- The statements that are recorded fit their place if the tokens show texts of their kinds. -/
theorem Cursor.fits_parse {c : Cursor} (hdepth : c.depth = 0) (h : ∀ t ∈ c.upcoming, t.Spelt) :
    c.parse.program.Fits .program := by
  refine .program fun s hs => ?_
  obtain ⟨o, ho, heq⟩ := List.mem_filterMap.1 hs
  obtain ⟨a, ha, rfl⟩ := List.mem_map.1 ho
  have hok : a.outcome = .ok s := by
    split at heq
    · next s' houtcome => rw [houtcome, Option.some.inj heq]
    · simp at heq
  obtain ⟨x, hd⟩ := exists_derives_of_mem hdepth ha hok
  refine hd.fits fun t ht => h t ?_
  rw [← flatMap_tokens hdepth]
  exact List.mem_flatMap_of_mem ha ht

/-- The tree of every text, malformed or not, fits: names are words that are not reserved, literals
are within their bounds, operators are those of the language, and statements and blocks stand where
they belong. -/
theorem fits_parseText (source : String) : (parseText source).program.Fits .program := by
  apply Cursor.fits_parse rfl
  rw [Cursor.upcoming_start]
  intro t ht
  exact TokenSource.spelt_of_mem_pending ht

end FnLang
