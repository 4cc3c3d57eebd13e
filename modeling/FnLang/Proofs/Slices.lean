/- # FnLang.Proofs.Slices — a text, cut into its tokens.

The lexer loses nothing.  A text is, from its start to its end, the slices of its tokens with trivia
between them: blanks, and comments that run up to a line feed or to the end of the text
(`tokenize_lossless`).  The place of a token is that of its slice, and a place is counted off from the
characters before it (`Location.behind`).

The relation `Cut` is the lexer's own account of this, one lexeme after the other.  Besides the slices
it knows why each of them ends where it does: it is the first lexeme of what is left of the text, and
no trivia starts there.  Other modules take what they need about tokens from it.
-/
import FnLang.Proofs.Spelling

namespace FnLang

open Text

/-! ## Trivia -/

/-- Blanks and comments.  A comment runs up to its line feed; where nothing comes after the trivia
(`atEnd`), the last comment may do without. -/
inductive Trivia : (atEnd : Bool) → List Char → Prop
  | nil {e : Bool} : Trivia e []
  | blank {e : Bool} {c : Char} {u : List Char} : isBlank c = true → Trivia e u → Trivia e (c :: u)
  | comment {e : Bool} {body u : List Char} : '\n' ∉ body → Trivia e u →
      Trivia e ('/' :: '/' :: (body ++ '\n' :: u))
  | lastComment {body : List Char} : '\n' ∉ body → Trivia true ('/' :: '/' :: body)

/-- The rest of a comment, and the trivia after it. -/
inductive CommentRest : (atEnd : Bool) → List Char → Prop
  | ended {e : Bool} {u : List Char} : Trivia e u → CommentRest e ('\n' :: u)
  | goOn {e : Bool} {c : Char} {u : List Char} : c ≠ '\n' → CommentRest e u →
      CommentRest e (c :: u)
  | cutOff : CommentRest true []

/-- A comment that is begun is trivia with its rest. -/
theorem CommentRest.trivia {e : Bool} {u : List Char} (h : CommentRest e u) :
    Trivia e ('/' :: '/' :: u) := by
  have hparts : ∃ body, '\n' ∉ body ∧
      ((∃ v, u = body ++ '\n' :: v ∧ Trivia e v) ∨ (u = body ∧ e = true)) := by
    induction h with
    | @ended e v hv => exact ⟨[], by simp, .inl ⟨v, rfl, hv⟩⟩
    | @goOn e c u hc _ ih =>
        obtain ⟨body, hbody, hend⟩ := ih
        refine ⟨c :: body, fun h => (List.mem_cons.1 h).elim hc.symm hbody, ?_⟩
        rcases hend with ⟨v, rfl, hv⟩ | ⟨rfl, he⟩
        · exact .inl ⟨v, rfl, hv⟩
        · exact .inr ⟨rfl, he⟩
    | cutOff => exact ⟨[], by simp, .inr ⟨rfl, rfl⟩⟩
  obtain ⟨body, hbody, ⟨v, rfl, hv⟩ | ⟨rfl, rfl⟩⟩ := hparts
  · exact .comment hbody hv
  · exact .lastComment hbody

/-- The token that a lexeme makes where it stands. -/
def Lexeme.token (x : Lexeme) (l : Location) : Token :=
  { kind := x.kind, text := String.ofList x.text, line := l.line, column := l.column }

/-- The end of input at a place. -/
def Token.endingAt (l : Location) : Token :=
  { Token.ending with line := l.line, column := l.column }

/-- No trivia starts the text. -/
def Bare : List Char → Prop
  | [] => True
  | c :: cs => isBlank c = false ∧ ¬ (c = '/' ∧ cs.head? = some '/')

namespace Input

/-- What is dropped of a text is trivia, begun inside a comment or outside, and no trivia starts the
rest. -/
theorem exists_dropTrivia (inComment : Bool) (l : Location) (cs : List Char) :
    ∃ u v, cs = u ++ v ∧ dropTrivia inComment l cs = ⟨v, l.after u⟩ ∧ Bare v ∧
      if inComment then CommentRest v.isEmpty u else Trivia v.isEmpty u := by
  induction cs generalizing inComment l with
  | nil => cases inComment <;> exact ⟨[], [], rfl, rfl, trivial, by constructor⟩
  | cons c cs ih =>
      rw [dropTrivia]
      split
      · next hcomment =>
        subst hcomment
        obtain ⟨u, v, rfl, hdrop, hbare, hu⟩ := ih (c != '\n') (l.step c)
        refine ⟨c :: u, v, rfl, hdrop, hbare, ?_⟩
        by_cases hc : c = '\n'
        · subst hc
          exact .ended hu
        · rw [if_pos (by simpa using hc)] at hu
          exact .goOn hc hu
      rename_i hcomment
      rw [Bool.not_eq_true] at hcomment
      subst hcomment
      split
      · next hblank =>
        obtain ⟨u, v, rfl, hdrop, hbare, hu⟩ := ih false (l.step c)
        exact ⟨c :: u, v, rfl, hdrop, hbare, .blank hblank hu⟩
      split
      · next hblank hslash =>
        obtain ⟨rfl, hnext⟩ := hslash
        obtain ⟨u, v, hcs, hdrop, hbare, hu⟩ := ih true (l.step '/')
        refine ⟨'/' :: u, v, by rw [hcs]; rfl, hdrop, hbare, ?_⟩
        -- what has been dropped begins with the second stroke of the comment
        rw [hcs] at hnext
        generalize hend : v.isEmpty = e at hu ⊢
        cases hu with
        | ended => exact absurd hnext (by simp)
        | goOn _ hu =>
            obtain rfl := Option.some.inj hnext
            exact hu.trivia
        | cutOff =>
            obtain rfl := List.isEmpty_iff.1 hend
            exact absurd hnext (by simp)
      · next hblank hslash =>
        exact ⟨[], c :: cs, rfl, rfl, ⟨by simpa using hblank, hslash⟩, .nil⟩

/-- The next token is the first lexeme after some trivia, or the end of input after them. -/
theorem nextToken_cases (i : Input) :
    (Trivia true i.rest ∧ i.nextToken =
      (.endingAt (i.location.after i.rest), ⟨[], i.location.after i.rest⟩)) ∨
    ∃ u c cs, Trivia false u ∧ Bare (c :: cs) ∧ i.rest = u ++ c :: cs ∧
      i.nextToken = ((Lexeme.first c cs).token (i.location.after u),
        ⟨(c :: cs).drop (Lexeme.first c cs).slice.length,
          (i.location.after u).after (Lexeme.first c cs).slice⟩) := by
  obtain ⟨u, v, hrest, hdrop, hbare, hu⟩ := exists_dropTrivia false i.location i.rest
  have hskip : i.skipTrivia = ⟨v, i.location.after u⟩ := hdrop
  cases v with
  | nil =>
      rw [List.append_nil] at hrest
      subst hrest
      refine .inl ⟨hu, ?_⟩
      rw [nextToken, hskip]
      rfl
  | cons c cs =>
      refine .inr ⟨u, c, cs, hu, hbare, hrest, ?_⟩
      rw [nextToken, hskip]
      rfl

end Input

/-! ## Slices -/

/-- The characters that a token occupies: a string stands between its marks, which its text leaves
out. -/
def Token.slice (t : Token) : List Char :=
  if t.kind = .string then '"' :: (t.text.toList ++ ['"']) else t.text.toList

/-- A kind with a fixed spelling is no string. -/
theorem Kind.ne_string_of_mem {s : List Char} {k : Kind}
    (h : (s, k) ∈ Kind.reserved ∨ (s, k) ∈ Kind.symbols) : k ≠ .string := by
  have hreserved : ∀ e ∈ Kind.reserved, e.2 ≠ .string := by decide
  have hsymbols : ∀ e ∈ Kind.symbols, e.2 ≠ .string := by decide
  rcases h with h | h
  · exact hreserved _ h
  · exact hsymbols _ h

namespace Lexeme

/-- A lexeme is shown as it is written, but for the marks of a string. -/
def Shown (x : Lexeme) : Prop :=
  x.slice = if x.kind = .string then '"' :: (x.text ++ ['"']) else x.text

theorem shown_plain {k : Kind} {s : List Char} (h : k ≠ .string) : (plain k s).Shown := by
  rw [Shown, plain, if_neg h]

theorem shown_ofSymbol? {s : List Char} {x : Lexeme} (h : ofSymbol? s = some x) : x.Shown := by
  obtain ⟨k, hk, rfl⟩ := Option.map_eq_some_iff.1 h
  exact shown_plain (Kind.ne_string_of_mem (.inr (mem_of_lookup_eq_some hk)))

theorem shown_first (c : Char) (cs : List Char) : (first c cs).Shown := by
  unfold first
  split
  · refine shown_plain ?_
    rcases Kind.ofWord_cases ((c :: cs).takeWhile isWordPart) with hmem | ⟨-, hname⟩
    · exact Kind.ne_string_of_mem (.inl hmem)
    · rw [hname]
      decide
  split
  · unfold number
    dsimp only
    split <;> exact shown_plain (by decide)
  split
  · unfold quotation
    dsimp only
    split
    · exact shown_plain (by decide)
    · rfl
  cases hsymbol : symbol? (c :: cs) with
  | none => exact shown_plain (by decide)
  | some x => exact (Option.or_eq_some_iff.1 hsymbol).elim shown_ofSymbol? fun h => shown_ofSymbol? h.2

theorem slice_token {x : Lexeme} (h : x.Shown) (l : Location) : (x.token l).slice = x.slice := by
  rw [h]
  simp [Token.slice, token]

end Lexeme

/-! ## Cuts -/

/-- A token with the trivia in front of it. -/
structure Piece where
  trivia : List Char
  token : Token

/-- The characters of a piece. -/
def Piece.text (p : Piece) : List Char :=
  p.trivia ++ p.token.slice

/-- `Cut l cs ps tail`: the text `cs`, which starts at `l`, is the pieces `ps` and the trivia `tail`.
The token of a piece is the first lexeme of what is left of the text. -/
inductive Cut : Location → List Char → List Piece → List Char → Prop
  | tail {l : Location} {u : List Char} : Trivia true u → Cut l u [] u
  | piece {l : Location} {u v tail : List Char} {c : Char} {cs : List Char} {ps : List Piece} :
      Trivia false u → Bare (c :: cs) → c :: cs = (Lexeme.first c cs).slice ++ v →
      Cut ((l.after u).after (Lexeme.first c cs).slice) v ps tail →
      Cut l (u ++ c :: cs) (⟨u, (Lexeme.first c cs).token (l.after u)⟩ :: ps) tail

/-- The tokens of a text are those of its pieces, and the end of input at its end. -/
theorem Input.exists_cut (i : Input) :
    ∃ ps tail, Cut i.location i.rest ps tail ∧
      i.tokens = ps.map Piece.token ++ [.endingAt (i.location.after i.rest)] := by
  fun_induction tokens i with
  | case1 i heof =>
      rcases i.nextToken_cases with ⟨htrivia, hnext⟩ | ⟨u, c, cs, -, -, -, hnext⟩
      · exact ⟨[], _, .tail htrivia, by rw [hnext]; rfl⟩
      · rw [hnext] at heof
        exact absurd heof (Lexeme.first_kind_ne_eof c cs)
  | case2 i heof ih =>
      rcases i.nextToken_cases with ⟨-, hnext⟩ | ⟨u, c, cs, hu, hbare, hrest, hnext⟩
      · rw [hnext] at heof
        exact absurd rfl heof
      · obtain ⟨v, hv⟩ := Lexeme.first_isPrefix c cs
        rw [hnext] at ih ⊢
        rw [← hv, List.drop_left] at ih
        obtain ⟨ps, tail, hcut, htokens⟩ := ih
        refine ⟨_, tail, by rw [hrest]; exact .piece hu hbare hv.symm hcut, ?_⟩
        rw [← hv, List.drop_left, htokens, hrest, Location.after_append, ← hv,
          Location.after_append]
        rfl

namespace Cut

variable {l : Location} {cs tail : List Char} {p : Piece} {us ps : List Piece}

/-- Nothing is lost. -/
theorem text_eq (h : Cut l cs ps tail) : cs = ps.flatMap Piece.text ++ tail := by
  induction h with
  | tail _ => rfl
  | @piece l u v tail c cs ps _ _ hslice _ ih =>
      rw [List.flatMap_cons, Piece.text, Lexeme.slice_token (Lexeme.shown_first c cs), hslice, ih]
      simp

theorem trivia_tail (h : Cut l cs ps tail) : Trivia true tail := by
  induction h with
  | tail hu => exact hu
  | piece _ _ _ _ ih => exact ih

/-- What stands in front of some pieces moves them and does not change them. -/
theorem drop (h : Cut l cs (us ++ ps) tail) :
    Cut (l.after (us.flatMap Piece.text)) (ps.flatMap Piece.text ++ tail) ps tail := by
  induction us generalizing l cs with
  | nil =>
      have htext := text_eq h
      subst htext
      exact h
  | cons q us ih =>
      cases h with
      | @piece _ u v _ c cs _ _ _ _ hrest =>
          -- the piece in front goes to the place where the cut begins
          have hpiece := ih hrest
          rwa [← Location.after_append, ← Location.after_append,
            ← Lexeme.slice_token (Lexeme.shown_first c cs) (l.after u), ← List.append_assoc] at hpiece

/-- The first piece is trivia and the first lexeme after them. -/
theorem head (h : Cut l cs (p :: ps) tail) :
    Trivia false p.trivia ∧ ∃ c ds, Bare (c :: ds) ∧
      c :: ds = p.token.slice ++ (ps.flatMap Piece.text ++ tail) ∧
      p.token = (Lexeme.first c ds).token (l.after p.trivia) := by
  cases h with
  | @piece _ u v _ c ds _ hu hbare hslice hrest =>
      refine ⟨hu, c, ds, hbare, ?_, rfl⟩
      rw [Lexeme.slice_token (Lexeme.shown_first c ds), ← text_eq hrest, ← hslice]

end Cut

/-! ## Places -/

/-- The place behind some characters at the start of a text.  The line feeds among them count the
lines, and the characters after the last one of these the columns. -/
def Location.behind (before : List Char) : Location where
  line := 1 + before.count '\n'
  column := 1 + (before.reverse.takeWhile (· ≠ '\n')).length

theorem Location.after_start (cs : List Char) : ({} : Location).after cs = .behind cs := by
  rw [← cs.reverse_reverse]
  induction cs.reverse with
  | nil => rfl
  | cons c rs ih =>
      rw [List.reverse_cons, after_append, ih, after_cons, after_nil, step, behind, behind]
      by_cases hc : c = '\n'
      · subst hc
        simp [Int.add_assoc]
      · simp [hc, Int.add_assoc]

/-- The place of a token. -/
def Token.location (t : Token) : Location :=
  ⟨t.line, t.column⟩

/-- A token of a text tells the place of its slice. -/
theorem Cut.location_eq {cs tail : List Char} {us vs : List Piece} {p : Piece}
    (h : Cut {} cs (us ++ p :: vs) tail) :
    p.token.location = .behind (us.flatMap Piece.text ++ p.trivia) := by
  obtain ⟨-, c, ds, -, -, htoken⟩ := h.drop.head
  rw [← Location.after_start, Location.after_append, htoken]
  rfl

/-! ## Texts -/

/-- A text is the slices of its tokens with trivia around them, and the end of input is its last
token.  No slice but that of the end is empty, and every token tells the place of its slice. -/
theorem tokenize_lossless (source : String) :
    ∃ (pieces : List Piece) (tail : List Char) (ending : Token),
      tokenize source = pieces.map Piece.token ++ [ending] ∧
      source.toList = pieces.flatMap Piece.text ++ tail ∧
      (∀ us p vs, pieces = us ++ p :: vs →
        Trivia false p.trivia ∧ p.token.kind ≠ .eof ∧ p.token.slice ≠ [] ∧
          p.token.location = .behind (us.flatMap Piece.text ++ p.trivia)) ∧
      Trivia true tail ∧ ending.kind = .eof ∧ ending.slice = [] ∧
      ending.location = .behind source.toList := by
  obtain ⟨ps, tail, hcut, htokens⟩ := (Input.ofSource source).exists_cut
  refine ⟨ps, tail, _, htokens, hcut.text_eq, ?_, hcut.trivia_tail, rfl, rfl,
    Location.after_start _⟩
  rintro us p vs rfl
  obtain ⟨htrivia, c, ds, -, -, htoken⟩ := hcut.drop.head
  refine ⟨htrivia, ?_, ?_, hcut.location_eq⟩
  · rw [htoken]
    exact Lexeme.first_kind_ne_eof c ds
  · rw [htoken, Lexeme.slice_token (Lexeme.shown_first c ds)]
    exact Lexeme.first_ne_nil c ds

end FnLang
