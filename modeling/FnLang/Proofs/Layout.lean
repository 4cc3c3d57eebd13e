/- # FnLang.Proofs.Layout — layout does not matter.

The tokens of a text can be written out anew with any trivia between them (`Layout`), as long as these
begin with a blank.  Then the same tokens are read again, at other places, and the same program is
parsed from them, with the same errors but for the places that they quote (`parseText_layout`).

For the lexer that is so because no lexeme but a string holds a blank, and a string ends at its own
mark: a lexeme is still the longest one when a blank comes after it (`Lexeme.first_before_blank`).  A
string that is not closed would take in what comes after it, but there is nothing after it.  The parser
sees two cursors that show the same tokens at other places, and goes along with both (`Cursor.Shows`).
-/
import FnLang.Proofs.LongestMatch
import FnLang.Proofs.Simulation

namespace FnLang

open Text

/-! ## Blanks -/

namespace Text

variable {c : Char}

theorem isDigit_of_isBlank (hc : ¬ c.toNat < 128) (h : isBlank c = true) : isDigit c = false := by
  have hforms := CharSet.contains_eq_false (t := digitForms) (by decide +kernel) h
  have hdecimal : isDecimal c = false := by
    rw [Bool.eq_false_iff]
    intro hdec
    have hblank := CharSet.contains_eq_false (t := CharSet.decimals) (by decide +kernel) h
    rw [contains_of_isDecimal hc hdec] at hblank
    exact absurd hblank (by decide)
  rw [isDigit, if_neg hc, hdecimal, hforms, Bool.or_false]

/-- No blank is numeric. -/
theorem isNumeric_of_isBlank (h : isBlank c = true) : isNumeric c = false := by
  by_cases hc : c.toNat < 128
  · revert h
    exact of_ascii (p := fun c => isBlank c = true → isNumeric c = false) (by decide +kernel) hc
  · have hforms := CharSet.contains_eq_false (t := numberForms) (by decide +kernel) h
    rw [isNumeric, if_neg hc, isDigit_of_isBlank hc h, hforms, Bool.or_false]

end Text

theorem Lexeme.isBlank_of_isWordPart {c : Char} (h : isWordPart c = true) : isBlank c = false := by
  rw [Bool.eq_false_iff]
  intro hblank
  rw [isWordPart, isLetter_of_isBlank hblank, isNumeric_of_isBlank hblank, Bool.false_or,
    Bool.false_or, beq_iff_eq] at h
  subst h
  exact absurd hblank (by decide)

theorem isBlank_of_isDigit {c : Char} (h : isDigit c = true) : isBlank c = false := by
  rw [Bool.eq_false_iff]
  intro hblank
  have hnumeric := isNumeric_of_isDigit h
  rw [isNumeric_of_isBlank hblank] at hnumeric
  exact absurd hnumeric (by decide)

/-- No lexeme but a string holds a blank. -/
theorem LexicalClass.isBlank_eq_false {c : Char} {s : List Char} {k : Kind}
    (h : LexicalClass k (c :: s)) (hmark : c ≠ '"') : ∀ d ∈ c :: s, isBlank d = false := by
  intro d hd
  rcases h.cases_cons with ⟨-, hword, -⟩ | ⟨-, ⟨-, hds⟩ | ⟨-, ds, fs, hs, hds, hfs⟩⟩ | ⟨hc, -⟩ |
    hsymbol
  · exact Lexeme.isBlank_of_isWordPart (hword d hd)
  · exact isBlank_of_isDigit (hds d hd)
  · rw [hs] at hd
    rcases List.mem_append.1 hd with hd | hd
    · exact isBlank_of_isDigit (hds d hd)
    rcases List.mem_cons.1 hd with rfl | hd
    · decide
    · exact isBlank_of_isDigit (hfs d hd)
  · exact absurd hc hmark
  · exact (Kind.plain_of_mem_symbols hsymbol hd).2.2.2

/-! ## Lexemes before blanks -/

namespace Lexeme

variable {c : Char} {cs v : List Char}

theorem eq_of_slice_eq {x y : Lexeme} (hx : x.Shown) (hy : y.Shown) (hkind : x.kind = y.kind)
    (hslice : x.slice = y.slice) : x = y := by
  rw [Shown] at hx hy
  rw [hkind] at hx
  have htext : x.text = y.text := by
    rw [hx, hy] at hslice
    split at hslice
    · simpa using hslice
    · exact hslice
  cases x
  cases y
  simp_all

/-- A string goes no further than its own mark, whatever comes after it. -/
theorem string_eq_of_isPrefix {s u : List Char} {j k : Kind} (hs : LexicalClass j ('"' :: s))
    (hu : LexicalClass k ('"' :: u)) (h : s <+: u) : s = u := by
  obtain ⟨-, body, rfl, hbody⟩ := hs.of_mark
  obtain ⟨-, body', rfl, hbody'⟩ := hu.of_mark
  obtain ⟨w, hw⟩ := h
  rw [List.append_assoc, List.singleton_append] at hw
  have hsame : body = body' := by
    have hbefore : (body ++ '"' :: w).takeWhile (· != '"') = body := split_at_mark hbody
    rw [hw, split_at_mark hbody'] at hbefore
    exact hbefore.symm
  rw [hsame]

/-- What begins with no mark does not go on with a blank. -/
theorem nil_of_before_blank {s w : List Char} {k : Kind} (h : LexicalClass k (c :: (s ++ w)))
    (hmark : c ≠ '"') (hw : w <+: v) (hv : ∀ b ∈ v.head?, isBlank b = true) : w = [] := by
  cases w with
  | nil => rfl
  | cons b w =>
      have hb : isBlank b = true := by
        obtain ⟨z, rfl⟩ := hw
        exact hv b rfl
      rw [h.isBlank_eq_false hmark b (by simp)] at hb
      exact absurd hb (by decide)

/-- A lexeme that starts with another one in front of a blank goes no further. -/
theorem length_le_of_before_blank {s u : List Char} {j k : Kind} (hs : LexicalClass j s)
    (hv : ∀ b ∈ v.head?, isBlank b = true) (hu : LexicalClass k u) (hfront : u <+: s ++ v) :
    u.length ≤ s.length := by
  rcases Nat.le_total u.length s.length with hle | hle
  · exact hle
  obtain ⟨w, rfl⟩ := List.prefix_of_prefix_length_le (List.prefix_append s v) hfront hle
  have hw : w <+: v := (List.prefix_append_right_inj s).1 hfront
  obtain ⟨c, s, rfl⟩ := List.exists_cons_of_ne_nil hs.ne_nil
  by_cases hmark : c = '"'
  · subst hmark
    have heq : s = s ++ w := string_eq_of_isPrefix hs hu (List.prefix_append s w)
    exact Nat.le_of_eq (by rw [List.cons_append, ← heq])
  · obtain rfl := nil_of_before_blank hu hmark hw hv
    simp

/-- A character that is no lexeme by itself begins none in front of a blank. -/
theorem no_class_before_blank (hmark : c ≠ '"') (hv : ∀ b ∈ v.head?, isBlank b = true)
    (hnone : ∀ k, ¬ LexicalClass k [c]) {k : Kind} {u : List Char} (hu : u <+: c :: v) :
    ¬ LexicalClass k u := by
  intro hclass
  obtain ⟨w, rfl, hw⟩ := exists_cons_of_prefix hu hclass
  obtain rfl := nil_of_before_blank (s := []) hclass hmark hw hv
  exact hnone k hclass

/-- A lexeme is read again in front of a blank and at the end of a text.  A string that is not closed
is read again at the end of a text. -/
theorem first_before_blank (hv : ∀ b ∈ v.head?, isBlank b = true)
    (hopen : (first c cs).kind = .illegal → c = '"' → v = []) :
    ∃ ds, (first c cs).slice ++ v = c :: ds ∧ first c ds = first c cs := by
  obtain ⟨d, s, hs⟩ := List.exists_cons_of_ne_nil (first_ne_nil c cs)
  have hfront := first_isPrefix c cs
  rw [hs] at hfront
  obtain ⟨rfl, -⟩ := List.cons_prefix_cons.1 hfront
  refine ⟨s ++ v, by rw [hs]; rfl, ?_⟩
  have hagain : (first d cs).slice <+: d :: (s ++ v) := by
    rw [hs]
    exact List.prefix_append (d :: s) v
  rcases longest_first d cs with ⟨hclass, -⟩ | ⟨hillegal, hnone, hslice⟩
  · rcases longest_first d (s ++ v) with ⟨hclass', hlongest⟩ | ⟨-, hnone', -⟩
    · -- each of the two is the longest one where the other stands
      have hge := hlongest _ _ hagain hclass
      have hfirst := first_isPrefix d (s ++ v)
      have hle := length_le_of_before_blank hclass hv hclass' (by rw [hs]; exact hfirst)
      have hslices := (List.prefix_of_prefix_length_le hfirst hagain hle).eq_of_length
        (Nat.le_antisymm hle hge)
      rw [hslices] at hclass'
      exact eq_of_slice_eq (shown_first _ _) (shown_first _ _) (hclass'.kind_unique hclass) hslices
    · exact absurd hclass (hnone' _ _ hagain)
  by_cases hmark : d = '"'
  · rw [if_pos hmark, hs] at hslice
    rw [hopen hillegal hmark, List.append_nil, (List.cons.inj hslice).2]
  · rw [if_neg hmark, hs] at hslice
    obtain rfl := (List.cons.inj hslice).2
    have hsingle : ∀ k, ¬ LexicalClass k [d] :=
      fun k => hnone k [d] (List.cons_prefix_cons.2 ⟨rfl, List.nil_prefix⟩)
    rw [List.nil_append]
    rcases longest_first d v with ⟨hclass, -⟩ | ⟨hillegal', -, hslice'⟩
    · exact absurd hclass (no_class_before_blank hmark hv hsingle (first_isPrefix d v))
    · refine eq_of_slice_eq (shown_first _ _) (shown_first _ _) (by rw [hillegal, hillegal']) ?_
      rw [hslice', if_neg hmark, hs]

/-- A string that is not closed goes up to the end of the text. -/
theorem slice_of_illegal (hkind : (first c cs).kind = .illegal) (hc : c = '"') :
    (first c cs).slice = c :: cs := by
  rcases longest_first c cs with ⟨hclass, -⟩ | ⟨-, -, hslice⟩
  · exact absurd hkind hclass.ne_illegal
  · rw [hslice, if_pos hc]

end Lexeme

/-- No trivia starts where a lexeme is read again. -/
theorem Bare.before_blank {c : Char} {cs ds v : List Char} (h : Bare (c :: cs))
    (hv : ∀ b ∈ v.head?, isBlank b = true) (hds : (Lexeme.first c cs).slice ++ v = c :: ds) :
    Bare (c :: ds) := by
  refine ⟨h.1, ?_⟩
  rintro ⟨rfl, hnext⟩
  obtain ⟨d, s, hs⟩ := List.exists_cons_of_ne_nil (Lexeme.first_ne_nil '/' cs)
  have hfront := Lexeme.first_isPrefix '/' cs
  rw [hs] at hfront hds
  obtain ⟨rfl, z, rfl⟩ := List.cons_prefix_cons.1 hfront
  obtain rfl := (List.cons.inj hds).2
  -- the second stroke is a blank, or it stood there before
  cases s with
  | nil => exact absurd (hv '/' hnext) (by decide)
  | cons e s => exact h.2 ⟨rfl, hnext⟩

/-! ## Layouts -/

/-- What stands between two tokens: a blank, and after it more blanks and comments that end with their
lines. -/
def Separator (u : List Char) : Prop :=
  ∃ c v, u = c :: v ∧ isBlank c = true ∧ Trivia false v

/-- The tokens are written one after the other, with a separator between each two. -/
inductive Written : List Token → List Char → Prop
  | nil : Written [] []
  | cons {t : Token} {ts : List Token} {gap u : List Char} : (ts = [] → gap = []) →
      (ts ≠ [] → Separator gap) → Written ts u → Written (t :: ts) (t.slice ++ (gap ++ u))

/-- After the last token nothing is written, and after any other a blank comes next. -/
theorem Written.gap_cases {ts : List Token} {gap u : List Char} (hlast : ts = [] → gap = [])
    (hgap : ts ≠ [] → Separator gap) (hu : Written ts u) :
    (ts = [] ∧ gap ++ u = []) ∨ (ts ≠ [] ∧ Separator gap) := by
  by_cases hts : ts = []
  · subst hts
    cases hu
    exact .inl ⟨rfl, by rw [hlast rfl]; rfl⟩
  · exact .inr ⟨hts, hgap hts⟩

/-- The tokens are written with separators between them, and maybe one in front. -/
def Layout (ts : List Token) (text : List Char) : Prop :=
  ∃ lead u, (lead = [] ∨ Separator lead) ∧ Written ts u ∧ text = lead ++ u

namespace Input

variable {l : Location} {u v : List Char}

/-- A comment is dropped up to its line feed. -/
theorem dropTrivia_comment (h : '\n' ∉ u) (l : Location) (v : List Char) :
    dropTrivia true l (u ++ '\n' :: v) = dropTrivia false (l.after (u ++ ['\n'])) v := by
  induction u generalizing l with
  | nil => rfl
  | cons c u ih =>
      rw [List.mem_cons, not_or] at h
      rw [List.cons_append, dropTrivia, if_pos rfl, bne_iff_ne.2 (Ne.symm h.1), ih h.2]
      rfl

/-- Trivia are dropped in front of any text. -/
theorem dropTrivia_trivia (h : Trivia false u) (l : Location) (v : List Char) :
    dropTrivia false l (u ++ v) = dropTrivia false (l.after u) v := by
  generalize he : false = e at h
  -- the trivia do not end the text, so the last comment has its line feed
  induction h generalizing l with
  | nil => subst he; rfl
  | @blank e c u hc _ ih =>
      subst he
      rw [List.cons_append, dropTrivia, if_neg (by simp), if_pos hc, ih _ rfl]
      rfl
  | @comment e body u hbody _ ih =>
      subst he
      have hopen : dropTrivia false l ('/' :: '/' :: (body ++ '\n' :: u) ++ v) =
          dropTrivia true ((l.step '/').step '/') (body ++ '\n' :: (u ++ v)) := by
        rw [List.cons_append, dropTrivia, if_neg (by simp), if_neg (by decide), if_pos ⟨rfl, rfl⟩,
          List.cons_append, dropTrivia, if_pos rfl, List.append_assoc]
        rfl
      rw [hopen, dropTrivia_comment hbody, ih _ rfl, ← Location.after_append, List.append_assoc]
      rfl
  | lastComment => exact absurd he (by simp)

end Input

/-- What a token says: its kind and its text. -/
def Token.content (t : Token) : Kind × String :=
  (t.kind, t.text)

namespace TokenSource

variable {l : Location} {u v : List Char}

theorem pending_trivia (h : Trivia false u) (l : Location) (v : List Char) :
    (text ⟨u ++ v, l⟩).pending = (text ⟨v, l.after u⟩).pending :=
  pending_text_congr (Input.dropTrivia_trivia h l v)

theorem pending_separator (h : Separator u) (l : Location) (v : List Char) :
    (text ⟨u ++ v, l⟩).pending = (text ⟨v, l.after u⟩).pending := by
  obtain ⟨c, w, rfl, hc, hw⟩ := h
  exact pending_trivia (.blank hc hw) l v

theorem pending_nil (l : Location) : (text ⟨[], l⟩).pending = [] :=
  pending_of_eof rfl

end TokenSource

/-- A lexeme in front of a blank is a token, and what comes after it is read from its end on. -/
theorem TokenSource.pending_before_blank {c : Char} {cs v : List Char} (hbare : Bare (c :: cs))
    (hv : ∀ b ∈ v.head?, isBlank b = true)
    (hopen : (Lexeme.first c cs).kind = .illegal → c = '"' → v = []) (l l' : Location) :
    ∃ t l'', t.content = ((Lexeme.first c cs).token l).content ∧
      (text ⟨(Lexeme.first c cs).slice ++ v, l'⟩).pending = t :: (text ⟨v, l''⟩).pending := by
  obtain ⟨ds, hds, hfirst⟩ := Lexeme.first_before_blank hv hopen
  have hbare' := hbare.before_blank hv hds
  obtain ⟨t, l'', hkind, htext, hpending⟩ :=
    pending_lexeme (l := l') hbare'.1 hbare'.2 hfirst hds.symm
  refine ⟨t, l'', ?_, by rw [hds, hpending]⟩
  rw [Token.content, hkind, htext]
  rfl

theorem Cut.pieces_of_nil {l : Location} {tail : List Char} {ps : List Piece}
    (h : Cut l [] ps tail) : ps = [] := by
  generalize hcs : [] = cs at h
  cases h with
  | tail => rfl
  | piece => simp at hcs

/-- The tokens of a text are read again from what is written: by induction on the cut of the text, one
lexeme after the other. -/
theorem Cut.content_pending {l : Location} {cs tail text : List Char} {ps : List Piece}
    (h : Cut l cs ps tail) (hw : Written (ps.map Piece.token) text) (l' : Location) :
    (TokenSource.text ⟨text, l'⟩).pending.map Token.content =
      (ps.map Piece.token).map Token.content := by
  induction h generalizing text l' with
  | tail =>
      cases hw
      rw [TokenSource.pending_nil]
      rfl
  | @piece l u v tail c cs ps _ hbare hslice hrest ih =>
      cases hw with
      | @cons _ _ gap w hlast hgap hw =>
      have hcases := Written.gap_cases hlast hgap hw
      have hv : ∀ b ∈ (gap ++ w).head?, isBlank b = true := by
        rcases hcases with ⟨-, hnil⟩ | ⟨-, b, z, rfl, hb, -⟩
        · simp [hnil]
        · intro d hd
          rwa [← Option.some.inj hd]
      have hopen : (Lexeme.first c cs).kind = .illegal → c = '"' → gap ++ w = [] := by
        intro hkind hc
        -- it has taken in all there was, so no token comes after it
        have hv : v = [] := by
          rw [Lexeme.slice_of_illegal hkind hc] at hslice
          simpa using hslice
        subst hv
        obtain rfl := hrest.pieces_of_nil
        rcases hcases with ⟨-, hnil⟩ | ⟨hne, -⟩
        · exact hnil
        · exact absurd rfl hne
      obtain ⟨t, l'', hcontent, hpending⟩ :=
        TokenSource.pending_before_blank hbare hv hopen (l.after u) l'
      rw [Lexeme.slice_token (Lexeme.shown_first c cs), hpending, List.map_cons, hcontent]
      refine congrArg (_ :: ·) ?_
      rcases hcases with ⟨hts, hnil⟩ | ⟨-, hsep⟩
      · show _ = (ps.map Piece.token).map Token.content
        rw [hnil, hts, TokenSource.pending_nil]
      · rw [TokenSource.pending_separator hsep]
        exact ih hw _

namespace TokenSource

/-- The tokens of an input are what it shows up to its end, and its end. -/
theorem tokens_eq (i : Input) : i.tokens = (text i).pending ++ [(text i).final] := by
  fun_induction Input.tokens i with
  | case1 i heof =>
      rw [pending_of_eof (s := text i) heof, final_of_eof (s := text i) heof]
      rfl
  | case2 i heof ih =>
      rw [pending_of_ne_eof (s := text i) heof, final_of_ne_eof (s := text i) heof, ih]
      rfl

/-- The tokens of a text are those of its pieces. -/
theorem exists_cut (i : Input) :
    ∃ ps tail, Cut i.location i.rest ps tail ∧ (text i).pending = ps.map Piece.token ∧
      (text i).final = .endingAt (i.location.after i.rest) := by
  obtain ⟨ps, tail, hcut, htokens⟩ := i.exists_cut
  rw [tokens_eq] at htokens
  obtain ⟨hpending, hfinal⟩ := List.append_inj' htokens rfl
  exact ⟨ps, tail, hcut, hpending, (List.cons.inj hfinal).1⟩

/-- The tokens of a text have a place. -/
theorem placed_ofText (source : String) :
    (∀ t ∈ (ofText source).pending, t.line ≠ 0) ∧ (ofText source).final.line ≠ 0 := by
  have hplace : ∀ before : List Char, (Location.behind before).line ≠ 0 := by
    intro before
    show (1 + (before.count '\n' : Int)) ≠ 0
    omega
  obtain ⟨ps, tail, hcut, hpending, hfinal⟩ := exists_cut (Input.ofSource source)
  constructor
  · intro t ht
    rw [ofText, hpending] at ht
    obtain ⟨p, hp, rfl⟩ := List.mem_map.1 ht
    obtain ⟨us, vs, rfl⟩ := List.append_of_mem hp
    have hlocation := Cut.location_eq hcut
    show p.token.location.line ≠ 0
    rw [hlocation]
    exact hplace _
  · rw [ofText, hfinal]
    show (Location.after {} source.toList).line ≠ 0
    rw [Location.after_start]
    exact hplace _

end TokenSource

/-! ## The same but for places -/

/-- The tokens are the same but for their places, and both of them have a place to be quoted, or
neither. -/
structure Token.Same (t u : Token) : Prop where
  kind_eq : t.kind = u.kind
  text_eq : t.text = u.text
  placed_iff : t.line = 0 ↔ u.line = 0

theorem Token.Same.refl (t : Token) : t.Same t :=
  ⟨rfl, rfl, Iff.rfl⟩

theorem Token.same_of_content {ts us : List Token} (h : us.map content = ts.map content)
    (hts : ∀ t ∈ ts, t.line ≠ 0) (hus : ∀ u ∈ us, u.line ≠ 0) : List.Forall₂ Same ts us := by
  induction ts generalizing us with
  | nil =>
      rw [List.map_nil, List.map_eq_nil_iff] at h
      rw [h]
      exact .nil
  | cons t ts ih =>
      rw [List.map_cons, List.map_eq_cons_iff] at h
      obtain ⟨u, us, rfl, hu, hrest⟩ := h
      obtain ⟨hkind, htext⟩ := Prod.mk.inj hu
      have ht := hts t (by simp)
      have hu := hus u (by simp)
      refine .cons ⟨hkind.symm, htext.symm, by simp [ht, hu]⟩ (ih hrest ?_ ?_)
      · exact fun t' ht' => hts t' (by simp [ht'])
      · exact fun u' hu' => hus u' (by simp [hu'])

/-! ## Messages -/

/-- The texts differ at most in numbers that they quote. -/
inductive Text.SameButNumbers : String → String → Prop
  | words (s : String) : SameButNumbers s s
  | number (n m : Int) : SameButNumbers (Numeral.write n) (Numeral.write m)
  | append {s t s' t' : String} : SameButNumbers s t → SameButNumbers s' t' →
      SameButNumbers (s ++ s') (t ++ t')

theorem Cause.Alike.sameButNumbers {T : Token → Token → Prop} {x y : Cause} (h : x.Alike T y) :
    SameButNumbers x.message y.message := by
  cases h with
  | same => exact .words _
  | group =>
      exact .append (.append (.append (.append (.append (.words _) (.number _ _)) (.words _))
        (.number _ _)) (.words _)) (.words _)

/-- Errors that are the same but for places have the same text but for numbers. -/
theorem ParseError.Alike.sameButNumbers {e f : ParseError} (h : e.Alike Token.Same f) :
    SameButNumbers e.text f.text := by
  obtain ⟨x, t⟩ := e
  obtain ⟨y, u⟩ := f
  refine .append (.append (.words _) h.cause.sameButNumbers) ?_
  cases h.token with
  | none => exact .words _
  | @some t u htu =>
      dsimp only
      by_cases ht : t.line = 0
      · rw [if_pos ht, if_pos (htu.placed_iff.1 ht)]
        exact .words _
      · rw [if_neg ht, if_neg fun hu => ht (htu.placed_iff.2 hu)]
        exact .append (.append (.append (.append (.words _) (.number _ _)) (.words _))
          (.number _ _)) (.words _)

/-! ## Texts -/

namespace TokenSource

/-- The tokens before the end of input, out of all the tokens. -/
theorem filter_tokenize (source : String) :
    (tokenize source).filter (·.kind ≠ .eof) = (ofText source).pending := by
  have hpending : (ofText source).pending.filter (·.kind ≠ .eof) = (ofText source).pending := by
    rw [List.filter_eq_self]
    intro t ht
    simpa using kind_ne_eof_of_mem_pending ht
  have hfinal : (ofText source).final.kind = .eof := kind_final _
  rw [tokenize, tokens_eq, List.filter_append]
  show List.filter _ (ofText source).pending ++ List.filter _ [(ofText source).final] = _
  rw [hpending, List.filter_cons_of_neg (by simp [hfinal]), List.filter_nil, List.append_nil]

/-- The same tokens are read again. -/
theorem content_pending_of_layout {source other : String}
    (h : Layout (ofText source).pending other.toList) :
    (ofText other).pending.map Token.content = (ofText source).pending.map Token.content := by
  obtain ⟨ps, tail, hcut, hpending, -⟩ := exists_cut (Input.ofSource source)
  obtain ⟨lead, u, hlead, hwritten, htext⟩ := h
  have hsource : (ofText source).pending = ps.map Piece.token := hpending
  rw [hsource] at hwritten ⊢
  show (text ⟨other.toList, {}⟩).pending.map Token.content = _
  rw [htext]
  rcases hlead with rfl | hsep
  · exact hcut.content_pending hwritten _
  · rw [pending_separator hsep]
    exact hcut.content_pending hwritten _

theorem content_final (source : String) : (ofText source).final.content = (.eof, "") := by
  obtain ⟨-, -, -, -, hfinal⟩ := exists_cut (Input.ofSource source)
  show (text (Input.ofSource source)).final.content = _
  rw [hfinal]
  rfl

/-- At their starts the cursors over a text and over its layout show the same tokens. -/
theorem shows_start {source other : String}
    (h : Layout (ofText source).pending other.toList) :
    (Cursor.start (ofText source)).Shows Token.Same (Cursor.start (ofText other)) := by
  obtain ⟨hsource, hend⟩ := placed_ofText source
  obtain ⟨hother, hend'⟩ := placed_ofText other
  obtain ⟨hkind, htext⟩ := Prod.mk.inj ((content_final source).trans (content_final other).symm)
  constructor
  · exact .refl _
  · -- both have places, as every token of a text does
    rw [Cursor.upcoming_start, Cursor.upcoming_start]
    exact Token.same_of_content (content_pending_of_layout h) hsource hother
  · rw [Cursor.final_start, Cursor.final_start]
    exact ⟨hkind, htext, by simp [hend, hend']⟩
  · rfl

end TokenSource

/-- The tokens of a text, written out anew, are read again, and the same program is parsed from them.
There are as many errors, in the same order, and each says the same but for the lines and columns that
it quotes. -/
theorem parseText_layout (source other : String)
    (h : Layout ((tokenize source).filter (·.kind ≠ .eof)) other.toList) :
    (tokenize other).map Token.content = (tokenize source).map Token.content ∧
    (parseText other).program = (parseText source).program ∧
    List.Forall₂ (fun e f => e.Alike Token.Same f ∧ SameButNumbers e.text f.text)
      (parseText source).errors (parseText other).errors := by
  rw [TokenSource.filter_tokenize] at h
  obtain ⟨hprogram, herrors⟩ := Simulation.parse
    (S := Cursor.Shows.simulation Token.Same.kind_eq Token.Same.text_eq) (TokenSource.shows_start h)
    Parse.nestingLimit
  refine ⟨?_, hprogram.symm, herrors.imp fun e f hef => ⟨hef, hef.sameButNumbers⟩⟩
  rw [tokenize, tokenize, TokenSource.tokens_eq, TokenSource.tokens_eq, List.map_append,
    List.map_append]
  show (TokenSource.ofText other).pending.map Token.content ++
      [(TokenSource.ofText other).final.content] =
    (TokenSource.ofText source).pending.map Token.content ++
      [(TokenSource.ofText source).final.content]
  rw [TokenSource.content_pending_of_layout h, TokenSource.content_final,
    TokenSource.content_final]

/-- A group that is not closed is quoted at another place. -/
theorem parseText_layout_openGroup :
    Layout ((tokenize "(1;").filter (·.kind ≠ .eof)) "\n( //\n1 ;".toList ∧
      List.Forall₂ (fun e f => e.Alike Token.Same f ∧ SameButNumbers e.text f.text)
        (parseText "(1;").errors (parseText "\n( //\n1 ;").errors := by
  have hlayout : Layout ((tokenize "(1;").filter (·.kind ≠ .eof)) "\n( //\n1 ;".toList := by
    have htokens : (tokenize "(1;").filter (·.kind ≠ .eof) =
        [⟨.lparen, "(", 1, 1⟩, ⟨.int, "1", 1, 2⟩, ⟨.semicolon, ";", 1, 3⟩] := by
      decide +kernel
    have hcomment : Separator [' ', '/', '/', '\n'] :=
      ⟨' ', ['/', '/', '\n'], rfl, by decide, .comment List.not_mem_nil .nil⟩
    have hblank {c : Char} (hc : isBlank c = true) : Separator [c] := ⟨c, [], rfl, hc, .nil⟩
    have hend : Written [⟨.semicolon, ";", 1, 3⟩] [';'] :=
      .cons (fun _ => rfl) (fun h => absurd rfl h) .nil
    have hone : Written [⟨.int, "1", 1, 2⟩, ⟨.semicolon, ";", 1, 3⟩] (['1'] ++ ([' '] ++ [';'])) :=
      .cons (fun h => absurd h (by simp)) (fun _ => hblank (by decide)) hend
    have hall : Written [⟨.lparen, "(", 1, 1⟩, ⟨.int, "1", 1, 2⟩, ⟨.semicolon, ";", 1, 3⟩]
        (['('] ++ ([' ', '/', '/', '\n'] ++ ['1', ' ', ';'])) :=
      .cons (fun h => absurd h (by simp)) (fun _ => hcomment) hone
    rw [htokens]
    exact ⟨['\n'], _, .inr (hblank (by decide)), hall, rfl⟩
  exact ⟨hlayout, (parseText_layout _ _ hlayout).2.2⟩

end FnLang
