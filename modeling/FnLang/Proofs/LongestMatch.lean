/- # FnLang.Proofs.LongestMatch — every token is the longest lexeme where it stands.

The lexical classes are stated without the lexer (`LexicalClass`): words, numbers, strings and
symbols, each with the kind of its lexemes.  The lexer decides by the first character and reads on as
long as it can.  That this gives the longest lexeme of any class is a matter of the characters: no
character begins lexemes of two classes, since letters are no digits in any script, and what begins a
symbol begins nothing else.  So for a first character only one class has to be looked at.

`tokenize_longest` states it for whole texts.  A token is illegal exactly if no lexeme starts where it
stands; it is then a string that is not closed, up to the end of the text, or one character.
-/
import FnLang.Proofs.Slices

namespace FnLang

open Text

/-! ## Sets of characters that lie apart -/

namespace Text.CharSet

/-- The ranges begin in ascending order. -/
def ascending : List (Nat × Nat) → Bool
  | r :: q :: rs => r.1 ≤ q.1 && ascending (q :: rs)
  | _ => true

theorem pairwise_of_ascending {rs : List (Nat × Nat)} (h : ascending rs = true) :
    rs.Pairwise fun r q => r.1 ≤ q.1 := by
  fun_induction ascending rs with
  | case1 r q rs ih =>
      rw [Bool.and_eq_true, decide_eq_true_eq] at h
      have hrest := ih h.2
      refine .cons (fun p hp => ?_) hrest
      rcases List.mem_cons.1 hp with rfl | hp
      · exact h.1
      · exact Nat.le_trans h.1 (List.rel_of_pairwise_cons hrest hp)
  | case2 rs hrs =>
      match rs with
      | [] => exact .nil
      | [r] => exact List.pairwise_singleton _ r
      | r :: q :: rs => exact absurd rfl (hrs r q rs)

/-- Whether no range of the first list meets one of the second, by one walk over both of them in
ascending order. -/
def apart : List (Nat × Nat) → List (Nat × Nat) → Bool
  | [], _ => true
  | r :: rs, qs =>
      let rest := qs.dropWhile fun q => q.2 < r.1
      rest.head?.all (fun q => r.2 < q.1) && apart rs rest

/-- The walk leaves a range behind for good: what begins later does not meet it either. -/
theorem of_apart {rs qs : List (Nat × Nat)} (hrs : rs.Pairwise fun r q => r.1 ≤ q.1)
    (hqs : qs.Pairwise fun r q => r.1 ≤ q.1) (h : apart rs qs = true) :
    ∀ r ∈ rs, ∀ q ∈ qs, r.2 < q.1 ∨ q.2 < r.1 := by
  induction rs generalizing qs with
  | nil => simp
  | cons r rs ih =>
      rw [apart, Bool.and_eq_true] at h
      obtain ⟨hhead, hrest⟩ := h
      obtain ⟨hr, hrs⟩ := List.pairwise_cons.1 hrs
      have hdrop := hqs.sublist (List.dropWhile_sublist fun q => decide (q.2 < r.1))
      intro p hp q hq
      rw [← List.takeWhile_append_dropWhile (p := fun q => decide (q.2 < r.1)) (l := qs)] at hq
      rcases List.mem_append.1 hq with hq | hq
      · have hless : q.2 < r.1 := by
          simpa using List.all_eq_true.1 List.all_takeWhile q hq
        rcases List.mem_cons.1 hp with rfl | hp
        · exact .inr hless
        · exact .inr (Nat.lt_of_lt_of_le hless (hr p hp))
      · rcases List.mem_cons.1 hp with rfl | hp
        · refine .inl ?_
          cases hlist : qs.dropWhile (fun q => decide (q.2 < p.1)) with
          | nil => simp [hlist] at hq
          | cons d ds =>
              rw [hlist] at hq hdrop hhead
              have hd : p.2 < d.1 := by simpa using hhead
              rcases List.mem_cons.1 hq with rfl | hq
              · exact hd
              · exact Nat.lt_of_lt_of_le hd (List.rel_of_pairwise_cons hdrop hq)
        · exact ih hrs hdrop hrest p hp q hq

theorem contains_eq_false_of_apart {s t : CharSet} {c : Char} (hs : ascending s.ranges = true)
    (ht : ascending t.ranges = true) (h : apart s.ranges t.ranges = true)
    (hc : s.contains c = true) : t.contains c = false := by
  obtain ⟨r, hr, hrc⟩ := contains_eq_true_iff.1 hc
  rw [Bool.eq_false_iff]
  intro htc
  obtain ⟨q, hq, hqc⟩ := contains_eq_true_iff.1 htc
  have := of_apart (pairwise_of_ascending hs) (pairwise_of_ascending ht) h r hr q hq
  omega

/-- The decimal digits beyond ASCII. -/
def decimals : CharSet :=
  ⟨zerosBeyondAscii.map fun base => (base, base + 9)⟩

end Text.CharSet

/-! ## Characters -/

namespace Text

variable {c : Char}

theorem contains_of_isDecimal (hc : ¬ c.toNat < 128) (h : isDecimal c = true) :
    CharSet.decimals.contains c = true := by
  rw [isDecimal, decimalValue?, if_neg hc, Option.isSome_map, List.find?_isSome] at h
  obtain ⟨base, hbase, hrange⟩ := h
  simp only [Bool.and_eq_true, decide_eq_true_eq] at hrange
  rw [CharSet.contains_eq_true_iff]
  refine ⟨(base, base + 9), List.mem_map_of_mem hbase, hrange.1, ?_⟩
  show c.toNat ≤ base + 9
  omega

/-- No digit is a letter. -/
theorem isLetter_of_isDigit (h : isDigit c = true) : isLetter c = false := by
  by_cases hc : c.toNat < 128
  · rw [isDigit_of_ascii hc] at h
    exact (isDigit_of_char h).2.2.1
  · rw [isLetter, if_neg hc]
    rw [isDigit, if_neg hc, Bool.or_eq_true] at h
    rcases h with h | h
    · exact CharSet.contains_eq_false_of_apart (by decide +kernel) (by decide +kernel)
        (by decide +kernel) (contains_of_isDecimal hc h)
    · exact CharSet.contains_eq_false_of_apart (by decide +kernel) (by decide +kernel)
        (by decide +kernel) h

end Text

/-! ## Lexical classes -/

/-- `LexicalClass k s`: the characters `s` are a lexeme of the kind `k`.  A word is a letter or an
underscore, and after it letters, numeric characters, which all digits are, and underscores; a reserved
word has a kind of its own and any other word is a name.  A number is digits, and with a point, which
digits may follow, it is a decimal one.  A string stands between two double quotes and has none inside.
A symbol is one of the table. -/
inductive LexicalClass : Kind → List Char → Prop
  | reserved {k : Kind} {w : List Char} : (w, k) ∈ Kind.reserved → LexicalClass k w
  | name {w : List Char} : Lexeme.isWord w = true → w ∉ Kind.reserved.map Prod.fst →
      LexicalClass .ident w
  | integer {ds : List Char} : ds ≠ [] → (∀ d ∈ ds, isDigit d = true) → LexicalClass .int ds
  | decimal {ds fs : List Char} : ds ≠ [] → (∀ d ∈ ds, isDigit d = true) →
      (∀ f ∈ fs, isDigit f = true) → LexicalClass .float (ds ++ '.' :: fs)
  | string {body : List Char} : '"' ∉ body → LexicalClass .string ('"' :: (body ++ ['"']))
  | symbol {k : Kind} {s : List Char} : (s, k) ∈ Kind.symbols → LexicalClass k s

namespace Kind

theorem ofWord_of_mem {w : List Char} {k : Kind} (h : (w, k) ∈ reserved) : ofWord w = k := by
  have hall : ∀ e ∈ reserved, ofWord e.1 = e.2 := by decide
  exact hall _ h

theorem isWord_of_mem_reserved {w : List Char} {k : Kind} (h : (w, k) ∈ reserved) :
    Lexeme.isWord w = true := by
  have hall : ∀ e ∈ reserved, Lexeme.isWord e.1 = true := by decide
  exact hall _ h

/-- No character of a symbol begins a word, a number or a string, and none is a blank. -/
theorem plain_of_mem_symbols {c : Char} {s : List Char} {k : Kind} (h : (s, k) ∈ symbols)
    (hc : c ∈ s) :
    Lexeme.isWordStart c = false ∧ isDigit c = false ∧ c ≠ '"' ∧ isBlank c = false := by
  have hall : (symbols.all fun e => e.1.all fun c =>
      !Lexeme.isWordStart c && !isDigit c && c != '"' && !isBlank c) = true := by decide +kernel
  have hplain := List.all_eq_true.1 (List.all_eq_true.1 hall _ h) c hc
  simp only [Bool.and_eq_true, Bool.not_eq_true', bne_iff_ne] at hplain
  exact ⟨hplain.1.1.1, hplain.1.1.2, hplain.1.2, hplain.2⟩

theorem length_of_mem_symbols {s : List Char} {k : Kind} (h : (s, k) ∈ symbols) :
    s.length = 1 ∨ s.length = 2 := by
  have hall : ∀ e ∈ symbols, e.1.length = 1 ∨ e.1.length = 2 := by decide
  exact hall _ h

theorem lookup_of_mem_symbols {s : List Char} {k : Kind} (h : (s, k) ∈ symbols) :
    symbols.lookup s = some k := by
  have hall : ∀ e ∈ symbols, symbols.lookup e.1 = some e.2 := by decide
  exact hall _ h

end Kind

theorem Lexeme.isWordStart_of_isDigit {c : Char} (h : isDigit c = true) :
    Lexeme.isWordStart c = false := by
  rw [isWordStart, isLetter_of_isDigit h, Bool.false_or, beq_eq_false_iff_ne]
  rintro rfl
  exact absurd h (by decide)

namespace LexicalClass

variable {c : Char} {s : List Char} {k m : Kind}

theorem ne_nil (h : LexicalClass k s) : s ≠ [] := by
  cases h with
  | reserved h =>
      have hall : ∀ e ∈ Kind.reserved, e.1 ≠ [] := by decide
      exact hall _ h
  | name h _ =>
      rintro rfl
      exact absurd h (by decide)
  | integer h _ => exact h
  | decimal _ _ _ => simp
  | string _ => simp
  | symbol h =>
      have hall : ∀ e ∈ Kind.symbols, e.1 ≠ [] := by decide
      exact hall _ h

/-- What is illegal is in no class. -/
theorem ne_illegal (h : LexicalClass k s) : k ≠ .illegal := by
  cases h with
  | reserved h =>
      have hall : ∀ e ∈ Kind.reserved, e.2 ≠ .illegal := by decide
      exact hall _ h
  | symbol h =>
      have hall : ∀ e ∈ Kind.symbols, e.2 ≠ .illegal := by decide
      exact hall _ h
  | name | integer | decimal | string => simp

/-- The first character of a lexeme tells the class, and with it what the lexeme looks like. -/
theorem cases_cons (h : LexicalClass k (c :: s)) :
    (Lexeme.isWordStart c = true ∧ (∀ d ∈ c :: s, Lexeme.isWordPart d = true) ∧
      k = Kind.ofWord (c :: s)) ∨
    (isDigit c = true ∧ ((k = .int ∧ ∀ d ∈ c :: s, isDigit d = true) ∨
      (k = .float ∧ ∃ ds fs, c :: s = ds ++ '.' :: fs ∧ (∀ d ∈ ds, isDigit d = true) ∧
        ∀ f ∈ fs, isDigit f = true))) ∨
    (c = '"' ∧ k = .string ∧ ∃ body, s = body ++ ['"'] ∧ '"' ∉ body) ∨
    (c :: s, k) ∈ Kind.symbols := by
  have word (hw : Lexeme.isWord (c :: s) = true) :
      Lexeme.isWordStart c = true ∧ ∀ d ∈ c :: s, Lexeme.isWordPart d = true := by
    obtain ⟨hstart, hparts⟩ := Bool.and_eq_true_iff.1 hw
    exact ⟨hstart, List.forall_mem_cons.2
      ⟨Lexeme.isWordPart_of_isWordStart hstart, List.all_eq_true.1 hparts⟩⟩
  generalize hcs : c :: s = w at h
  cases h with
  | reserved h =>
      subst hcs
      obtain ⟨hstart, hparts⟩ := word (Kind.isWord_of_mem_reserved h)
      exact .inl ⟨hstart, hparts, (Kind.ofWord_of_mem h).symm⟩
  | name hw hfree =>
      subst hcs
      obtain ⟨hstart, hparts⟩ := word hw
      rcases Kind.ofWord_cases (c :: s) with hmem | ⟨-, hname⟩
      · exact absurd (List.mem_map_of_mem hmem) hfree
      · exact .inl ⟨hstart, hparts, hname.symm⟩
  | integer hne hds =>
      subst hcs
      exact .inr (.inl ⟨hds c (by simp), .inl ⟨rfl, hds⟩⟩)
  | @decimal ds fs hne hds hfs =>
      obtain ⟨d, ds, rfl⟩ := List.exists_cons_of_ne_nil hne
      obtain rfl := (List.cons.inj hcs).1
      exact .inr (.inl ⟨hds c (by simp), .inr ⟨rfl, _, _, rfl, hds, hfs⟩⟩)
  | string hbody =>
      obtain ⟨rfl, rfl⟩ := List.cons.inj hcs
      exact .inr (.inr (.inl ⟨rfl, rfl, _, rfl, hbody⟩))
  | symbol h => exact .inr (.inr (.inr h))

theorem of_isWordStart (h : LexicalClass k (c :: s)) (hc : Lexeme.isWordStart c = true) :
    (∀ d ∈ c :: s, Lexeme.isWordPart d = true) ∧ k = Kind.ofWord (c :: s) := by
  rcases h.cases_cons with ⟨-, hword⟩ | ⟨hdigit, -⟩ | ⟨rfl, -⟩ | hsymbol
  · exact hword
  · exact absurd hc (by simp [Lexeme.isWordStart_of_isDigit hdigit])
  · exact absurd hc (by decide)
  · exact absurd hc (by simp [Kind.plain_of_mem_symbols hsymbol List.mem_cons_self])

theorem of_isDigit (h : LexicalClass k (c :: s)) (hc : isDigit c = true) :
    (k = .int ∧ ∀ d ∈ c :: s, isDigit d = true) ∨
      (k = .float ∧ ∃ ds fs, c :: s = ds ++ '.' :: fs ∧ (∀ d ∈ ds, isDigit d = true) ∧
        ∀ f ∈ fs, isDigit f = true) := by
  rcases h.cases_cons with ⟨hstart, -⟩ | ⟨-, hnumber⟩ | ⟨rfl, -⟩ | hsymbol
  · exact absurd hstart (by simp [Lexeme.isWordStart_of_isDigit hc])
  · exact hnumber
  · exact absurd hc (by decide)
  · exact absurd hc (by simp [Kind.plain_of_mem_symbols hsymbol List.mem_cons_self])

theorem of_mark (h : LexicalClass k ('"' :: s)) :
    k = .string ∧ ∃ body, s = body ++ ['"'] ∧ '"' ∉ body := by
  rcases h.cases_cons with ⟨hstart, -⟩ | ⟨hdigit, -⟩ | ⟨-, hstring⟩ | hsymbol
  · exact absurd hstart (by decide)
  · exact absurd hdigit (by decide)
  · exact hstring
  · exact absurd rfl (Kind.plain_of_mem_symbols hsymbol List.mem_cons_self).2.2.1

theorem of_other (h : LexicalClass k (c :: s)) (hstart : Lexeme.isWordStart c = false)
    (hdigit : isDigit c = false) (hmark : c ≠ '"') : (c :: s, k) ∈ Kind.symbols := by
  rcases h.cases_cons with ⟨hc, -⟩ | ⟨hc, -⟩ | ⟨hc, -⟩ | hsymbol
  · exact absurd hc (by simp [hstart])
  · exact absurd hc (by simp [hdigit])
  · exact absurd hc hmark
  · exact hsymbol

/-- A lexeme has one kind. -/
theorem kind_unique (h : LexicalClass k s) (h' : LexicalClass m s) : k = m := by
  obtain ⟨c, s, rfl⟩ := List.exists_cons_of_ne_nil h.ne_nil
  cases hstart : Lexeme.isWordStart c with
  | true => rw [(h.of_isWordStart hstart).2, (h'.of_isWordStart hstart).2]
  | false =>
    cases hdigit : isDigit c with
    | true =>
        -- a point is no digit, so no integer is a decimal number
        have hpoint : ∀ {ds fs : List Char}, c :: s = ds ++ '.' :: fs →
            ¬ ∀ d ∈ c :: s, isDigit d = true := by
          intro ds fs hs hall
          rw [hs] at hall
          exact absurd (hall '.' (by simp)) (by decide)
        rcases h.of_isDigit hdigit with ⟨rfl, hds⟩ | ⟨rfl, ds, fs, hs, -, -⟩ <;>
          rcases h'.of_isDigit hdigit with ⟨rfl, hds'⟩ | ⟨rfl, ds', fs', hs', -, -⟩
        · rfl
        · exact absurd hds (hpoint hs')
        · exact absurd hds' (hpoint hs)
        · rfl
    | false =>
      by_cases hmark : c = '"'
      · subst hmark
        rw [h.of_mark.1, h'.of_mark.1]
      · have hk := Kind.lookup_of_mem_symbols (h.of_other hstart hdigit hmark)
        have hm := Kind.lookup_of_mem_symbols (h'.of_other hstart hdigit hmark)
        exact Option.some.inj (hk.symm.trans hm)

end LexicalClass

/-! ## The first lexeme is the longest -/

/-- No lexeme at the start of `r` is longer than `s`. -/
def Longest (r s : List Char) : Prop :=
  ∀ k u, u <+: r → LexicalClass k u → u.length ≤ s.length

theorem prefix_takeWhile {p : Char → Bool} {u r : List Char} (h : u <+: r)
    (hu : ∀ d ∈ u, p d = true) : u <+: r.takeWhile p := by
  obtain ⟨v, rfl⟩ := h
  rw [List.takeWhile_append_of_pos hu]
  exact List.prefix_append u _

namespace Lexeme

variable {c : Char} {cs : List Char}

/-- A lexeme at the start of a text that is not empty begins with its first character. -/
theorem exists_cons_of_prefix {u : List Char} {k : Kind} (h : u <+: c :: cs)
    (hu : LexicalClass k u) : ∃ s, u = c :: s ∧ s <+: cs := by
  obtain ⟨d, s, rfl⟩ := List.exists_cons_of_ne_nil hu.ne_nil
  obtain ⟨rfl, hs⟩ := List.cons_prefix_cons.1 h
  exact ⟨s, rfl, hs⟩

theorem longest_word (hc : isWordStart c = true) :
    LexicalClass (word (c :: cs)).kind (word (c :: cs)).slice ∧
      Longest (c :: cs) (word (c :: cs)).slice := by
  constructor
  · show LexicalClass (Kind.ofWord _) _
    rcases Kind.ofWord_cases ((c :: cs).takeWhile isWordPart) with hmem | ⟨hfree, hname⟩
    · exact .reserved hmem
    · rw [hname]
      exact .name (isWord_takeWhile hc) hfree
  · intro k u hu hclass
    obtain ⟨s, rfl, -⟩ := exists_cons_of_prefix hu hclass
    exact (prefix_takeWhile hu (hclass.of_isWordStart hc).1).length_le

/-- A decimal number at the start of a text begins with all the digits there. -/
theorem split_at_point {ds fs r : List Char} (h : ds ++ '.' :: fs <+: r)
    (hds : ∀ d ∈ ds, isDigit d = true) :
    r.takeWhile isDigit = ds ∧ ∃ rest, r.dropWhile isDigit = '.' :: rest ∧ fs <+: rest := by
  obtain ⟨v, rfl⟩ := h
  have hpoint : isDigit '.' = false := by decide
  rw [List.append_assoc, List.takeWhile_append_of_pos hds, List.dropWhile_append_of_pos hds,
    List.cons_append]
  refine ⟨by simp [hpoint], fs ++ v, ?_, List.prefix_append fs v⟩
  simp [hpoint]

theorem longest_number (hc : isDigit c = true) :
    LexicalClass (number (c :: cs)).kind (number (c :: cs)).slice ∧
      Longest (c :: cs) (number (c :: cs)).slice := by
  have hall : ∀ d ∈ (c :: cs).takeWhile isDigit, isDigit d = true :=
    List.all_eq_true.1 List.all_takeWhile
  have hne : (c :: cs).takeWhile isDigit ≠ [] := by simp [hc]
  -- the digits at the start are no longer than the number, and a decimal number has the same digits
  have hcases : ∀ k u, u <+: c :: cs → LexicalClass k u →
      u.length ≤ ((c :: cs).takeWhile isDigit).length ∨
        ∃ rest fs, (c :: cs).dropWhile isDigit = '.' :: rest ∧
          u = (c :: cs).takeWhile isDigit ++ '.' :: fs ∧ fs <+: rest.takeWhile isDigit := by
    intro k u hu hclass
    obtain ⟨s, rfl, -⟩ := exists_cons_of_prefix hu hclass
    rcases hclass.of_isDigit hc with ⟨-, hds⟩ | ⟨-, ds, fs, hs, hds, hfs⟩
    · exact .inl (prefix_takeWhile hu hds).length_le
    · rw [hs] at hu ⊢
      obtain ⟨htake, rest, hdrop, hrest⟩ := split_at_point hu hds
      exact .inr ⟨rest, fs, hdrop, by rw [htake], prefix_takeWhile hrest hfs⟩
  unfold number
  dsimp only
  split
  · next rest hdrop =>
    refine ⟨.decimal hne hall (List.all_eq_true.1 List.all_takeWhile), ?_⟩
    intro k u hu hclass
    show u.length ≤ (List.takeWhile isDigit (c :: cs) ++ '.' :: rest.takeWhile isDigit).length
    rw [List.length_append, List.length_cons]
    rcases hcases k u hu hclass with hlength | ⟨rest', fs, hdrop', rfl, hfs⟩
    · omega
    · obtain rfl := (List.cons.inj (hdrop.symm.trans hdrop')).2
      have hlength := hfs.length_le
      rw [List.length_append, List.length_cons]
      omega
  · next hdrop =>
    refine ⟨.integer hne hall, ?_⟩
    intro k u hu hclass
    rcases hcases k u hu hclass with hlength | ⟨rest, fs, hpoint, -, -⟩
    · exact hlength
    · exact absurd hpoint (hdrop rest)

/-- A body without a mark ends at the first mark. -/
theorem split_at_mark {body rest : List Char} (h : '"' ∉ body) :
    (body ++ '"' :: rest).takeWhile (· != '"') = body := by
  have hbody : ∀ d ∈ body, (d != '"') = true := by
    intro d hd
    rw [bne_iff_ne]
    rintro rfl
    exact h hd
  rw [List.takeWhile_append_of_pos hbody]
  simp

/-- With its closing mark a string is the only lexeme that the opening mark begins; without, there is
none. -/
theorem longest_quotation (cs : List Char) :
    (LexicalClass (quotation cs).kind (quotation cs).slice ∧
      Longest ('"' :: cs) (quotation cs).slice) ∨
    ((quotation cs).kind = .illegal ∧ (∀ k u, u <+: '"' :: cs → ¬ LexicalClass k u) ∧
      (quotation cs).slice = '"' :: cs) := by
  have hall : '"' ∉ cs.takeWhile (· != '"') := by
    intro hmem
    have := List.all_eq_true.1 List.all_takeWhile _ hmem
    exact absurd this (by decide)
  -- a string at the start of the text ends at the first mark
  have hsame : ∀ k u, u <+: '"' :: cs → LexicalClass k u →
      '"' ∈ cs ∧ u = '"' :: (cs.takeWhile (· != '"') ++ ['"']) := by
    intro k u hu hclass
    obtain ⟨s, rfl, v, hv⟩ := exists_cons_of_prefix hu hclass
    obtain ⟨-, body, rfl, hbody⟩ := hclass.of_mark
    rw [List.append_assoc, List.singleton_append] at hv
    subst hv
    exact ⟨by simp, by rw [split_at_mark hbody]⟩
  unfold quotation
  dsimp only
  split
  · next hdrop =>
    have hcs : cs.takeWhile (· != '"') = cs := by
      have := List.takeWhile_append_dropWhile (p := (· != '"')) (l := cs)
      rwa [hdrop, List.append_nil] at this
    refine .inr ⟨rfl, fun k u hu hclass => ?_, congrArg _ hcs⟩
    rw [hcs] at hall
    exact hall (hsame k u hu hclass).1
  · refine .inl ⟨.string hall, fun k u hu hclass => ?_⟩
    rw [(hsame k u hu hclass).2]
    exact Nat.le_refl _

theorem class_of_ofSymbol? {s : List Char} {x : Lexeme} (h : ofSymbol? s = some x) :
    LexicalClass x.kind x.slice := by
  obtain ⟨k, hk, rfl⟩ := Option.map_eq_some_iff.1 h
  exact .symbol (mem_of_lookup_eq_some hk)

/-- Where no word, number or string begins, a lexeme is a symbol. -/
theorem of_other_prefix {k : Kind} {u : List Char} (hstart : isWordStart c = false)
    (hdigit : isDigit c = false) (hmark : c ≠ '"') (hu : u <+: c :: cs) (hclass : LexicalClass k u) :
    (u, k) ∈ Kind.symbols := by
  obtain ⟨s, rfl, -⟩ := exists_cons_of_prefix hu hclass
  exact hclass.of_other hstart hdigit hmark

/-- A symbol at the start of a text is found there. -/
theorem ofSymbol?_take {s r : List Char} {k : Kind} (h : (s, k) ∈ Kind.symbols) (hs : s <+: r) :
    ofSymbol? (r.take s.length) = some (plain k s) := by
  rw [← List.prefix_iff_eq_take.1 hs, ofSymbol?, Kind.lookup_of_mem_symbols h]
  rfl

/-- The symbol of two characters is tried first, and there are none longer. -/
theorem longest_symbol {x : Lexeme} (hstart : isWordStart c = false) (hdigit : isDigit c = false)
    (hmark : c ≠ '"') (hx : symbol? (c :: cs) = some x) :
    LexicalClass x.kind x.slice ∧ Longest (c :: cs) x.slice := by
  rcases Option.or_eq_some_iff.1 hx with htwo | ⟨htwo, hone⟩
  · refine ⟨class_of_ofSymbol? htwo, fun k u hu hclass => ?_⟩
    have hmem := of_other_prefix hstart hdigit hmark hu hclass
    have hlength := hu.length_le
    rw [ofSymbol?_slice htwo, List.length_take]
    rcases Kind.length_of_mem_symbols hmem with h | h <;> omega
  · refine ⟨class_of_ofSymbol? hone, fun k u hu hclass => ?_⟩
    have hmem := of_other_prefix hstart hdigit hmark hu hclass
    have hlength := hu.length_le
    rw [ofSymbol?_slice hone, List.length_take]
    rcases Kind.length_of_mem_symbols hmem with h | h
    · omega
    · -- two characters would have been found first
      have hfound := ofSymbol?_take hmem hu
      rw [h, htwo] at hfound
      exact absurd hfound (by simp)

theorem no_class_of_symbol? (hstart : isWordStart c = false) (hdigit : isDigit c = false)
    (hmark : c ≠ '"') (hnone : symbol? (c :: cs) = none) {k : Kind} {u : List Char}
    (hu : u <+: c :: cs) : ¬ LexicalClass k u := by
  intro hclass
  have hmem := of_other_prefix hstart hdigit hmark hu hclass
  have hfound := ofSymbol?_take hmem hu
  obtain ⟨htwo, hone⟩ := Option.or_eq_none_iff.1 hnone
  rcases Kind.length_of_mem_symbols hmem with h | h
  · rw [h, hone] at hfound
    exact absurd hfound (by simp)
  · rw [h, htwo] at hfound
    exact absurd hfound (by simp)

/-- The lexeme that is read is the longest one at the start of the text.  If there is none it is
illegal, and then it is a string that is not closed or a single character. -/
theorem longest_first (c : Char) (cs : List Char) :
    (LexicalClass (first c cs).kind (first c cs).slice ∧ Longest (c :: cs) (first c cs).slice) ∨
    ((first c cs).kind = .illegal ∧ (∀ k u, u <+: c :: cs → ¬ LexicalClass k u) ∧
      (first c cs).slice = if c = '"' then c :: cs else [c]) := by
  unfold first
  split
  · next hstart => exact .inl (longest_word hstart)
  split
  · next hdigit => exact .inl (longest_number hdigit)
  next hstart hdigit =>
  rw [Bool.not_eq_true] at hstart hdigit
  split
  · next hmark =>
    subst hmark
    exact longest_quotation cs
  · next hmark =>
    cases hsymbol : symbol? (c :: cs) with
    | some x => exact .inl (longest_symbol hstart hdigit hmark hsymbol)
    | none =>
        exact .inr ⟨rfl, fun k u hu => no_class_of_symbol? hstart hdigit hmark hsymbol hu, rfl⟩

end Lexeme

/-! ## Where a token stands -/

/-- No two places in a text are the same. -/
theorem Location.behind_inj {before before' r r' : List Char} (h : before ++ r = before' ++ r')
    (hplace : behind before = behind before') : before = before' := by
  -- one is a start of the other, and what is between them has neither a line feed nor a column
  have hempty : ∀ {u v : List Char}, behind u = behind (u ++ v) → v = [] := by
    intro u v heq
    simp only [behind, Location.mk.injEq, List.count_append, List.reverse_append] at heq
    have hcount : v.count '\n' = 0 := by omega
    have hall : ∀ d ∈ v.reverse, decide (d ≠ '\n') = true := by
      intro d hd
      rw [decide_eq_true_eq]
      rintro rfl
      exact List.count_eq_zero.1 hcount (List.mem_reverse.1 hd)
    rw [List.takeWhile_append_of_pos hall, List.length_append, List.length_reverse] at heq
    exact List.length_eq_zero_iff.1 (by omega)
  have hcomparable := List.prefix_or_prefix_of_prefix (List.prefix_append before r)
    (h ▸ List.prefix_append before' r')
  rcases hcomparable with ⟨v, rfl⟩ | ⟨v, rfl⟩
  · rw [hempty hplace, List.append_nil]
  · rw [hempty hplace.symm, List.append_nil]

/-- The token `t` is what stands at the start of `r`: the longest lexeme there, with the one kind it
has, or illegal if there is none. -/
structure Token.LongestAt (t : Token) (r : List Char) : Prop where
  isPrefix : t.slice <+: r
  longest : ∀ k u, u <+: r → LexicalClass k u →
    (∀ m, LexicalClass m t.slice ↔ m = t.kind) ∧ u.length ≤ t.slice.length
  illegal_iff : t.kind = .illegal ↔ ∀ k u, u <+: r → ¬ LexicalClass k u
  slice_of_illegal : t.kind = .illegal → t.slice = if r.head? = some '"' then r else r.take 1

theorem Lexeme.longestAt_token (c : Char) (cs : List Char) (l : Location) :
    ((first c cs).token l).LongestAt (c :: cs) := by
  have hslice := slice_token (shown_first c cs) l
  have hkind : ((first c cs).token l).kind = (first c cs).kind := rfl
  rcases longest_first c cs with ⟨hclass, hlongest⟩ | ⟨hillegal, hnone, hall⟩
  · have hlegal := hclass.ne_illegal
    constructor
    · rw [hslice]
      exact first_isPrefix c cs
    · intro k u hu hk
      rw [hslice, hkind]
      exact ⟨fun m => ⟨fun hm => hm.kind_unique hclass, fun hm => hm ▸ hclass⟩, hlongest k u hu hk⟩
    · exact ⟨fun h => absurd h hlegal,
        fun h => absurd hclass (h _ _ (first_isPrefix c cs))⟩
    · exact fun h => absurd h hlegal
  · constructor
    · rw [hslice]
      exact first_isPrefix c cs
    · exact fun k u hu hk => absurd hk (hnone k u hu)
    · exact ⟨fun _ => hnone, fun _ => hillegal⟩
    · intro _
      rw [hslice, hall]
      simp

/-- Every token of a text is the longest lexeme where it stands: at the one place in the text that it
tells. -/
theorem tokenize_longest (source : String) {t : Token} (ht : t ∈ tokenize source)
    (hk : t.kind ≠ .eof) :
    (∃ before r, source.toList = before ++ r ∧ t.location = .behind before) ∧
    ∀ before r, source.toList = before ++ r → t.location = .behind before → t.LongestAt r := by
  obtain ⟨ps, tail, hcut, htokens⟩ := (Input.ofSource source).exists_cut
  have hmem : t ∈ ps.map Piece.token := by
    rw [tokenize, htokens] at ht
    rcases List.mem_append.1 ht with ht | ht
    · exact ht
    · rw [List.mem_singleton.1 ht] at hk
      exact absurd rfl hk
  obtain ⟨p, hp, rfl⟩ := List.mem_map.1 hmem
  obtain ⟨us, vs, rfl⟩ := List.append_of_mem hp
  obtain ⟨-, c, ds, -, hrest, htoken⟩ := hcut.drop.head
  have htext := hcut.text_eq
  have hsource : source.toList = (us.flatMap Piece.text ++ p.trivia) ++ c :: ds := by
    show (Input.ofSource source).rest = _
    rw [htext, hrest]
    simp [Piece.text]
  have hplace := Cut.location_eq hcut
  refine ⟨⟨_, _, hsource, hplace⟩, fun before r hr hbefore => ?_⟩
  -- the place is that of one split of the text only, so what is left is the text of the lexeme
  have hsplit := hsource.symm.trans hr
  obtain rfl := Location.behind_inj hsplit (hplace.symm.trans hbefore)
  rw [← List.append_cancel_left hsplit, htoken]
  exact Lexeme.longestAt_token c ds _

/-- Of three equality signs the first two are an operator. -/
theorem tokenize_longest_threeSigns :
    ({ kind := .eq, text := "==", line := 1, column := 3 } : Token) ∈ tokenize "a ===1" ∧
      Token.LongestAt { kind := .eq, text := "==", line := 1, column := 3 } ['=', '=', '=', '1'] :=
  ⟨by decide +kernel,
    (tokenize_longest "a ===1" (by decide +kernel) (by decide)).2 ['a', ' '] _ rfl (by decide)⟩

end FnLang
