/- # FnLang.Proofs.Spelling — texts, by the tokens they are read as.

A text is read from the left, and where a lexeme ends depends on what comes after it: a word goes on
with letters, a number with digits or a point.  So a text on its own has no tokens; it has them in
front of a character that ends a lexeme (`Ends`), wherever it stands.  `Spells u P` says that the
characters `u` are then read as tokens with the property `P`.

The rules for `Spells` go through a text from the left, one lexeme or one part after the other, and
the property gathers the tokens that have been read.  A word, a number and a symbol have a rule each.
What they need of characters is at the beginning: blanks start no word, and the digits of a numeral
are read back as its value.
-/
import FnLang.Proofs.Span

namespace FnLang

open Text

/-! ## Characters -/

namespace Text

/-- Sets whose ranges lie apart have no character in common. -/
theorem CharSet.contains_eq_false {s t : CharSet} {c : Char}
    (h : s.ranges.all fun r => t.ranges.all fun q => r.2 < q.1 || q.2 < r.1)
    (hc : s.contains c = true) : t.contains c = false := by
  obtain ⟨r, hr, hrc⟩ := contains_eq_true_iff.1 hc
  rw [Bool.eq_false_iff]
  intro ht
  obtain ⟨q, hq, hqc⟩ := contains_eq_true_iff.1 ht
  have hapart := List.all_eq_true.1 (List.all_eq_true.1 h r hr) q hq
  simp only [Bool.or_eq_true, decide_eq_true_eq] at hapart
  omega

/-- What holds of the ASCII characters one by one. -/
theorem of_ascii {p : Char → Prop} (h : ∀ n : Fin 128, p (Char.ofNat n)) {c : Char}
    (hc : c.toNat < 128) : p c := by
  have := h ⟨c.toNat, hc⟩
  rwa [Char.ofNat_toNat] at this

theorem isLetter_of_isBlank {c : Char} (h : isBlank c = true) : isLetter c = false := by
  by_cases hc : c.toNat < 128
  · revert h
    exact of_ascii (p := fun c => isBlank c = true → isLetter c = false) (by decide +kernel) hc
  · rw [isLetter, if_neg hc]
    exact CharSet.contains_eq_false (by decide +kernel) h

theorem toNat_lt_of_isDigit {c : Char} (h : c.isDigit = true) : c.toNat < 128 := by
  simp only [Char.isDigit, Bool.and_eq_true, decide_eq_true_eq] at h
  exact Nat.lt_of_le_of_lt (UInt32.le_iff_toNat_le.1 h.2) (by decide)

/-- A decimal digit of ASCII is a digit, and neither a blank nor a letter, nor an underscore or a
sign. -/
theorem isDigit_of_char {c : Char} (h : c.isDigit = true) :
    isDigit c = true ∧ isBlank c = false ∧ isLetter c = false ∧ c ∉ ['_', '+', '-', '/', '='] := by
  have hc := toNat_lt_of_isDigit h
  revert h
  exact of_ascii (p := fun c => c.isDigit = true →
    isDigit c = true ∧ isBlank c = false ∧ isLetter c = false ∧ c ∉ ['_', '+', '-', '/', '='])
    (by decide +kernel) hc

end Text

/-! ## Separators -/

/-- Texts with separators between them are the first one, and then a separator and a text each time. -/
theorem toList_intercalate_cons (sep t : String) (ts : List String) :
    (sep.intercalate (t :: ts)).toList =
      t.toList ++ ts.flatMap fun u => sep.toList ++ u.toList := by
  induction ts generalizing t with
  | nil => simp
  | cons u us ih =>
      rw [String.intercalate_cons_cons, String.toList_append, String.toList_append, ih]
      simp

/-! ## Numerals -/

namespace Text.Numeral

theorem decimalValue?_of_isDigit {c : Char} (h : c.isDigit = true) :
    decimalValue? c = some (c.toNat - '0'.toNat) := by
  rw [decimalValue?, if_pos (toNat_lt_of_isDigit h), if_pos h]

/-- Digits without underscores are read one by one. -/
theorem digits?_of_isDigit {cs : List Char} (hcs : cs ≠ [])
    (h : ∀ c ∈ cs, c.isDigit = true) :
    digits? cs = some (cs.map fun c => c.toNat - '0'.toNat) := by
  induction cs with
  | nil => exact absurd rfl hcs
  | cons c cs ih =>
      obtain ⟨hc, hcs'⟩ := List.forall_mem_cons.1 h
      cases cs with
      | nil => rw [digits?, decimalValue?_of_isDigit hc]; rfl
      | cons d ds =>
          have hd : d ≠ '_' := fun hd => (isDigit_of_char (hcs' d (by simp))).2.2.2 (by simp [hd])
          rw [digits?, decimalValue?_of_isDigit hc, ih (by simp) hcs']
          · rfl
          · simp
          · rintro rest hrest
            exact hd (List.cons.inj hrest).1

/-- The digits of a number are read back as the number, if they are not too many. -/
theorem unsigned?_toDigits {n : Nat} (h : (Nat.toDigits 10 n).length ≤ maxDigits) :
    unsigned? (Nat.toDigits 10 n) = some n := by
  have hdigits : ∀ c ∈ Nat.toDigits 10 n, c.isDigit = true :=
    fun c hc => Nat.isDigit_of_mem_toDigits (by decide) (by decide) hc
  have hvalue : value ((Nat.toDigits 10 n).map fun c => c.toNat - '0'.toNat) = n := by
    rw [value, List.foldl_map]
    exact Nat.ofDigitChars_ten_toDigits
  rw [unsigned?, digits?_of_isDigit Nat.toDigits_ne_nil hdigits]
  show (if _ then _ else _) = _
  rw [List.length_map, if_pos h, hvalue]

theorem signed?_of_not_mem {cs : List Char} (h : ∀ c ∈ cs, c ∉ ['+', '-']) :
    signed? cs = (unsigned? cs).map fun n => (n : Int) := by
  unfold signed?
  split
  · exact absurd (by simp) (h '-' (by simp))
  · exact absurd (by simp) (h '+' (by simp))
  · rfl

/-- A literal is read back from its canonical numeral. -/
theorem readLiteral_write {v : Int} (h : 0 ≤ v) (hv : v ≤ maxLiteral) :
    readLiteral (write v) = .ok v := by
  obtain ⟨n, rfl⟩ := Int.eq_ofNat_of_zero_le h
  -- Ten digits hold the greatest literal.
  have hlength : (Nat.toDigits 10 n).length ≤ maxDigits := by
    have hten : (Nat.toDigits 10 n).length ≤ 10 := by
      apply (Nat.length_toDigits_le_iff (by decide) (by decide)).2
      have := Int.lt_of_le_of_lt hv (by decide : maxLiteral < 10 ^ 10)
      omega
    exact Nat.le_trans hten (by decide)
  have hplain : ∀ c ∈ Nat.toDigits 10 n, isSurround c = false ∧ c ∉ ['+', '-'] := by
    intro c hc
    obtain ⟨-, hblank, -, hother⟩ :=
      isDigit_of_char (Nat.isDigit_of_mem_toDigits (by decide) (by decide) hc)
    have hsub : ['+', '-'] ⊆ ['_', '+', '-', '/', '='] := by decide
    exact ⟨by rw [isSurround, hblank]; rfl, fun hsign => hother (hsub hsign)⟩
  have hread : read? (write n) = some (n : Int) := by
    show signed? (trimBy isSurround (String.ofList (Nat.toDigits 10 n)).toList) = _
    rw [String.toList_ofList, trimBy_eq_self
      (fun c hc => (hplain c (List.mem_of_mem_head? hc)).1)
      (fun c hc => (hplain c (List.mem_of_getLast? hc)).1),
      signed?_of_not_mem fun c hc => (hplain c hc).2, unsigned?_toDigits hlength]
    rfl
  rw [readLiteral, hread]
  exact if_pos ⟨Int.le_trans (by decide) h, hv⟩

end Text.Numeral

/-! ## Lexemes -/

namespace Lexeme

/-- A letter or an underscore, with letters, numeric characters and underscores after it. -/
def isWord : List Char → Bool
  | [] => false
  | c :: cs => isWordStart c && cs.all isWordPart

theorem isWord_takeWhile {c : Char} {cs : List Char} (h : isWordStart c = true) :
    isWord ((c :: cs).takeWhile isWordPart) = true := by
  rw [List.takeWhile_cons, if_pos (isWordPart_of_isWordStart h), isWord, h, Bool.true_and]
  exact List.all_takeWhile

theorem isBlank_of_isWordStart {c : Char} (h : isWordStart c = true) : isBlank c = false := by
  rw [Bool.eq_false_iff]
  intro hblank
  rw [isWordStart, isLetter_of_isBlank hblank, Bool.false_or, beq_iff_eq] at h
  subst h
  exact absurd hblank (by decide)

end Lexeme

/-- The characters that end a lexeme, whatever it is. -/
def enders : List Char :=
  [' ', '\n', '(', ')', ',', ';']

/-- A lexeme ends before these characters. -/
def Ends (v : List Char) : Prop :=
  ∀ c ∈ v.head?, c ∈ enders

theorem ends_nil : Ends [] := by
  simp [Ends]

theorem ends_cons {c : Char} {v : List Char} (h : enders.contains c = true) : Ends (c :: v) := by
  intro d hd
  rw [← Option.some.inj hd]
  exact List.contains_iff_mem.1 h

theorem Ends.append {v w : List Char} (hv : Ends v) (hw : Ends w) : Ends (v ++ w) := by
  cases v with
  | nil => exact hw
  | cons c v => exact ends_cons (List.contains_iff_mem.2 (hv c rfl))

/-- No character of a class is an ender, so none goes on with a run of that class. -/
theorem Ends.takeWhile_append {p : Char → Bool} {us v : List Char} (hv : Ends v)
    (hp : enders.all (fun c => !p c) = true) (hus : ∀ c ∈ us, p c = true) :
    (us ++ v).takeWhile p = us ∧ (us ++ v).dropWhile p = v := by
  rw [List.takeWhile_append_of_pos hus, List.dropWhile_append_of_pos hus]
  cases v with
  | nil => simp
  | cons c v =>
      have hc := List.all_eq_true.1 hp c (hv c rfl)
      rw [Bool.not_eq_true'] at hc
      simp [hc]

namespace Lexeme

variable {c : Char} {cs v : List Char}

/-- A word is read as a whole. -/
theorem first_word (h : isWord (c :: cs) = true) (hv : Ends v) :
    first c (cs ++ v) = plain (Kind.ofWord (c :: cs)) (c :: cs) := by
  obtain ⟨hstart, hparts⟩ := Bool.and_eq_true_iff.1 h
  have hall : ∀ d ∈ c :: cs, isWordPart d = true :=
    List.forall_mem_cons.2 ⟨isWordPart_of_isWordStart hstart, List.all_eq_true.1 hparts⟩
  rw [first, if_pos hstart, word, ← List.cons_append, (hv.takeWhile_append rfl hall).1]

/-- The digits of a number are read as a whole, and no point comes after them. -/
theorem first_number (h : ∀ d ∈ c :: cs, d.isDigit = true) (hv : Ends v) :
    first c (cs ++ v) = plain .int (c :: cs) := by
  obtain ⟨hdigit, -, hletter, hother⟩ := isDigit_of_char (h c (by simp))
  have hstart : isWordStart c = false := by
    rw [isWordStart, hletter, Bool.false_or]
    exact beq_false_of_ne fun hc => hother (by simp [hc])
  obtain ⟨htake, hdrop⟩ := hv.takeWhile_append (p := isDigit) rfl
    fun d hd => (isDigit_of_char (h d hd)).1
  rw [first, if_neg (by simp [hstart]), if_pos hdigit, ← List.cons_append, number, htake, hdrop]
  split
  · next rest => exact absurd (hv '.' rfl) (by decide)
  · rfl

end Lexeme

namespace TokenSource

variable {c : Char} {cs v : List Char} {l : Location} {x : Lexeme}

theorem pending_text_congr {i j : Input} (h : i.skipTrivia = j.skipTrivia) :
    (text i).pending = (text j).pending := by
  have hpull : (text i).pull = (text j).pull := by
    rw [pull, pull, Input.nextToken, Input.nextToken, h]
  by_cases heof : (text i).pull.1.kind = .eof
  · rw [pending_of_eof heof, pending_of_eof (by rwa [← hpull])]
  · refine (pending_of_ne_eof heof).trans ?_
    rw [hpull] at heof ⊢
    exact (pending_of_ne_eof heof).symm

/-- A blank is passed over. -/
theorem pending_blank (h : isBlank c = true) :
    (text ⟨c :: cs, l⟩).pending = (text ⟨cs, l.step c⟩).pending := by
  refine pending_text_congr ?_
  show Input.dropTrivia false l (c :: cs) = _
  rw [Input.dropTrivia, if_neg (by simp), if_pos h]
  rfl

/-- A lexeme is a token, and what comes after it is read from its end on. -/
theorem pending_lexeme (hblank : isBlank c = false) (hcomment : ¬ (c = '/' ∧ cs.head? = some '/'))
    (hfirst : Lexeme.first c cs = x) (heq : c :: cs = x.slice ++ v) :
    ∃ (t : Token) (l' : Location), t.kind = x.kind ∧ t.text = String.ofList x.text ∧
      (text ⟨c :: cs, l⟩).pending = t :: (text ⟨v, l'⟩).pending := by
  have hskip : Input.skipTrivia ⟨c :: cs, l⟩ = ⟨c :: cs, l⟩ := by
    show Input.dropTrivia false l (c :: cs) = _
    rw [Input.dropTrivia, if_neg (by simp), if_neg (by simp [hblank]), if_neg hcomment]
  have hnext : Input.nextToken ⟨c :: cs, l⟩ =
      (Input.tokenHere ⟨c :: cs, l⟩ x.kind x.text, ⟨v, l.after x.slice⟩) := by
    unfold Input.nextToken
    rw [hskip]
    show (_, Input.after ⟨c :: cs, l⟩ (Lexeme.first c cs).slice) = _
    rw [hfirst, Input.after]
    simp only [heq, List.drop_left]
  have hne : (text ⟨c :: cs, l⟩).pull.1.kind ≠ .eof := by
    rw [pull, hnext, ← hfirst]
    exact Lexeme.first_kind_ne_eof c cs
  refine ⟨Input.tokenHere ⟨c :: cs, l⟩ x.kind x.text, l.after x.slice, rfl, rfl, ?_⟩
  rw [pending_of_ne_eof hne, pull, hnext]

end TokenSource

theorem mem_of_lookup_eq_some {α β : Type} [BEq α] [LawfulBEq α] {a : α} {b : β}
    {table : List (α × β)} (h : table.lookup a = some b) : (a, b) ∈ table := by
  obtain ⟨before, after, rfl, -⟩ := List.lookup_eq_some_iff.1 h
  simp

/-- The kind of a word, in the terms of the table. -/
theorem Kind.ofWord_cases (w : List Char) :
    (w, ofWord w) ∈ reserved ∨ (w ∉ reserved.map Prod.fst ∧ ofWord w = ident) := by
  unfold ofWord
  cases hlookup : reserved.lookup w with
  | some k => exact .inl (mem_of_lookup_eq_some hlookup)
  | none =>
      refine .inr ⟨fun hmem => ?_, rfl⟩
      obtain ⟨e, he, rfl⟩ := List.mem_map.1 hmem
      have := List.lookup_eq_none_iff.1 hlookup e he
      simp at this

/-! ## Spelling -/

/-- The characters `u`, in front of an end of lexemes, are read as tokens with the property `P`. -/
def Spells (u : List Char) (P : List Token → Prop) : Prop :=
  ∀ (l : Location) (v : List Char), Ends v → ∃ (ts : List Token) (l' : Location),
    (TokenSource.text ⟨u ++ v, l⟩).pending = ts ++ (TokenSource.text ⟨v, l'⟩).pending ∧ P ts

namespace Spells

variable {c : Char} {u v : List Char} {k : Kind} {x : Lexeme} {P Q : List Token → Prop}

theorem imp (h : Spells u P) (hPQ : ∀ ts, P ts → Q ts) : Spells u Q := by
  intro l w hw
  obtain ⟨ts, l', heq, hts⟩ := h l w hw
  exact ⟨ts, l', heq, hPQ ts hts⟩

theorem nil (h : P []) : Spells [] P :=
  fun l _ _ => ⟨[], l, rfl, h⟩

theorem append (hu : Spells u P) (hv : Ends v)
    (h : ∀ us, P us → Spells v fun vs => Q (us ++ vs)) : Spells (u ++ v) Q := by
  intro l w hw
  obtain ⟨us, l', heq, hus⟩ := hu l (v ++ w) (hv.append hw)
  obtain ⟨vs, l'', heq', hvs⟩ := h us hus l' w hw
  refine ⟨us ++ vs, l'', ?_, hvs⟩
  rw [List.append_assoc, heq, heq', List.append_assoc]

theorem blank (hc : isBlank c = true) (h : Spells u P) : Spells (c :: u) P := by
  intro l w hw
  obtain ⟨ts, l', heq, hts⟩ := h (l.step c) w hw
  refine ⟨ts, l', ?_, hts⟩
  rw [List.cons_append, TokenSource.pending_blank hc, heq]

/-- The rule for every lexeme: it has to be the first one, whatever comes after the characters. -/
theorem lexeme (heq : c :: u = x.slice ++ v) (hblank : isBlank c = false)
    (hfirst : ∀ w, Ends w →
      Lexeme.first c (u ++ w) = x ∧ ¬ (c = '/' ∧ (u ++ w).head? = some '/'))
    (h : ∀ t : Token, t.kind = x.kind → t.text = String.ofList x.text →
      Spells v fun ts => P (t :: ts)) : Spells (c :: u) P := by
  intro l w hw
  obtain ⟨hx, hcomment⟩ := hfirst w hw
  obtain ⟨t, l', hkind, htext, hpending⟩ := TokenSource.pending_lexeme (l := l) (v := v ++ w)
    hblank hcomment hx (by rw [← List.cons_append, heq, List.append_assoc])
  obtain ⟨ts, l'', hrest, hts⟩ := h t hkind htext l' w hw
  refine ⟨t :: ts, l'', ?_, hts⟩
  rw [List.cons_append, hpending, hrest]
  rfl

/-- A word, in front of what ends it. -/
theorem word {w : List Char} (hw : Lexeme.isWord w = true) (hv : Ends v)
    (h : ∀ t : Token, t.kind = Kind.ofWord w → t.text = String.ofList w →
      Spells v fun ts => P (t :: ts)) : Spells (w ++ v) P := by
  cases w with
  | nil => simp [Lexeme.isWord] at hw
  | cons c cs =>
      have hstart := (Bool.and_eq_true_iff.1 hw).1
      refine lexeme (u := cs ++ v) (x := Lexeme.plain (Kind.ofWord (c :: cs)) (c :: cs)) rfl
        (Lexeme.isBlank_of_isWordStart hstart) (fun z hz => ⟨?_, ?_⟩) h
      · rw [List.append_assoc]
        exact Lexeme.first_word hw (hv.append hz)
      · rintro ⟨rfl, -⟩
        exact absurd hstart (by decide)

/-- The digits of a number, in front of what ends it. -/
theorem number (n : Nat) (hv : Ends v)
    (h : ∀ t : Token, t.kind = .int → t.text = Text.Numeral.write n →
      Spells v fun ts => P (t :: ts)) : Spells (Nat.toDigits 10 n ++ v) P := by
  have hdigits : ∀ c ∈ Nat.toDigits 10 n, c.isDigit = true :=
    fun c hc => Nat.isDigit_of_mem_toDigits (by decide) (by decide) hc
  obtain ⟨c, cs, hcs⟩ := List.exists_cons_of_ne_nil (Nat.toDigits_ne_nil (n := n) (b := 10))
  have hwrite : Text.Numeral.write n = String.ofList (c :: cs) := by rw [← hcs]; rfl
  rw [hcs] at hdigits ⊢
  rw [hwrite] at h
  obtain ⟨-, hblank, -, hother⟩ := isDigit_of_char (hdigits c (by simp))
  refine lexeme (u := cs ++ v) (x := Lexeme.plain .int (c :: cs)) rfl hblank
    (fun z hz => ⟨?_, ?_⟩) h
  · rw [List.append_assoc]
    exact Lexeme.first_number hdigits (hv.append hz)
  · rintro ⟨rfl, -⟩
    exact absurd hother (by decide)

/-- The characters that are symbols by themselves, whatever comes after them. -/
def punctuation : List (Char × Kind) :=
  [('(', .lparen), (')', .rparen), ('\x7b', .lbrace), ('\x7d', .rbrace), (',', .comma),
   (';', .semicolon), ('-', .minus)]

theorem symbol (hc : punctuation.lookup c = some k)
    (h : ∀ t : Token, t.kind = k → t.text = String.ofList [c] → Spells u fun ts => P (t :: ts)) :
    Spells (c :: u) P := by
  have hc := mem_of_lookup_eq_some hc
  have hfirst : ∀ w, Lexeme.first c w = Lexeme.plain k [c] := by
    intro w
    simp only [punctuation, List.mem_cons, Prod.mk.injEq, List.not_mem_nil, or_false] at hc
    rcases hc with ⟨rfl, rfl⟩ | ⟨rfl, rfl⟩ | ⟨rfl, rfl⟩ | ⟨rfl, rfl⟩ | ⟨rfl, rfl⟩ | ⟨rfl, rfl⟩ |
      ⟨rfl, rfl⟩ <;> cases w <;> rfl
  have hplain : isBlank c = false ∧ c ≠ '/' := by
    have hall : ∀ e ∈ punctuation, isBlank e.1 = false ∧ e.1 ≠ '/' := by decide
    exact hall _ hc
  exact lexeme (x := Lexeme.plain k [c]) rfl hplain.1
    (fun w _ => ⟨hfirst _, fun hslash => hplain.2 hslash.1⟩) h

/-- The mark of negation, unless an equality sign makes it another symbol. -/
theorem bang (hu : u.head? ≠ some '=')
    (h : ∀ t : Token, t.kind = .bang → t.text = "!" → Spells u fun ts => P (t :: ts)) :
    Spells ('!' :: u) P := by
  refine lexeme (x := Lexeme.plain .bang ['!']) rfl (by decide) (fun w hw => ⟨?_, by simp⟩) h
  have hnext : (u ++ w).head? ≠ some '=' := by
    cases u with
    | nil => exact fun heq => absurd (hw '=' heq) (by decide)
    | cons => exact hu
  cases heq : u ++ w with
  | nil => rfl
  | cons d ds =>
      rw [heq] at hnext
      have hd : d ≠ '=' := fun hd => hnext (by rw [hd]; rfl)
      have hlookup : Kind.symbols.lookup ['!', d] = none := by
        simp [Kind.symbols, Kind.operators, Kind.separators, List.lookup_cons, beq_false_of_ne hd]
      show ((Option.map _ (Kind.symbols.lookup ['!', d])).or _).getD _ = _
      rw [hlookup]
      rfl

/-- An operator, in front of a blank. -/
theorem operator {s : List Char} (hs : Kind.operators.lookup s = some k)
    (h : ∀ t : Token, t.kind = k → t.text = String.ofList s → Spells u fun ts => P (t :: ts)) :
    Spells (s ++ ' ' :: u) P := by
  have hblank (t : Token) (hk : t.kind = k) (ht : t.text = String.ofList s) :
      Spells (' ' :: u) fun ts => P (t :: ts) := .blank rfl (h t hk ht)
  have hs := mem_of_lookup_eq_some hs
  simp only [Kind.operators, List.mem_cons, Prod.mk.injEq, List.not_mem_nil, or_false] at hs
  rcases hs with ⟨rfl, rfl⟩ | ⟨rfl, rfl⟩ | ⟨rfl, rfl⟩ | ⟨rfl, rfl⟩ | ⟨rfl, rfl⟩ | ⟨rfl, rfl⟩ |
    ⟨rfl, rfl⟩ | ⟨rfl, rfl⟩ | ⟨rfl, rfl⟩ | ⟨rfl, rfl⟩ | ⟨rfl, rfl⟩ | ⟨rfl, rfl⟩ <;>
    exact lexeme (x := Lexeme.plain _ _) rfl (by decide) (fun w _ => ⟨rfl, by simp⟩) hblank

end Spells

end FnLang
