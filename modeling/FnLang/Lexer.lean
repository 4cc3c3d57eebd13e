/- # FnLang.Lexer — from characters to tokens.

The lexer works on an `Input`: the characters not yet read and the place of the first of them.  It
drops *trivia*, that is blanks and comments from `//` to the end of the line, and then reads the
longest lexeme that starts there: a word, a number, a string or a symbol.  A character that starts
none is an illegal token of its own, and so is a string without its closing mark, up to the end of
the text.  Reading never fails.

`Lexeme.first_isPrefix` and `Lexeme.first_ne_nil` say that a lexeme is a non-empty start of the
text; with them `Input.tokens` ends, because every token but the last shortens the input.
-/
import FnLang.Token
import FnLang.Text.Blank
import FnLang.Text.Letter
import FnLang.Text.Digit

namespace FnLang

open Text

/-! ## Lexemes -/

/-- A lexeme: its kind, the text its token gets and the slice of the source it occupies. -/
structure Lexeme where
  kind : Kind
  text : List Char
  slice : List Char
  deriving DecidableEq, Repr

namespace Lexeme

/-- A lexeme whose token shows the slice as it is. -/
def plain (kind : Kind) (slice : List Char) : Lexeme := ⟨kind, slice, slice⟩

/-- The characters a word starts with: letters and the underscore. -/
def isWordStart (c : Char) : Bool := isLetter c || c == '_'

/-- The characters a word goes on with: letters, numeric characters and the underscore. -/
def isWordPart (c : Char) : Bool := isLetter c || isNumeric c || c == '_'

/-- The word at the start of a text. -/
def word (cs : List Char) : Lexeme :=
  let slice := cs.takeWhile isWordPart
  plain (Kind.ofWord slice) slice

/-- The number at the start of a text: digits and, after one point, any further digits. -/
def number (cs : List Char) : Lexeme :=
  let whole := cs.takeWhile isDigit
  match cs.dropWhile isDigit with
  | '.' :: rest => plain .float (whole ++ '.' :: rest.takeWhile isDigit)
  | _ => plain .int whole

/-- The string whose opening mark stands before the text.  The marks belong to the slice, not to the
token's text; without a closing mark all of it is illegal. -/
def quotation (cs : List Char) : Lexeme :=
  let body := cs.takeWhile (· != '"')
  match cs.dropWhile (· != '"') with
  | [] => plain .illegal ('"' :: body)
  | _ :: _ => ⟨.string, body, '"' :: body ++ ['"']⟩

/-- The symbol with a spelling. -/
def ofSymbol? (spelling : List Char) : Option Lexeme :=
  (Kind.symbols.lookup spelling).map (plain · spelling)

/-- The longest symbol at the start of a text. -/
def symbol? (cs : List Char) : Option Lexeme :=
  (ofSymbol? (cs.take 2)).or (ofSymbol? (cs.take 1))

/-- The lexeme at the start of a text that is not empty and starts with no trivia. -/
def first (c : Char) (cs : List Char) : Lexeme :=
  if isWordStart c then word (c :: cs)
  else if isDigit c then number (c :: cs)
  else if c = '"' then quotation cs
  else (symbol? (c :: cs)).getD (plain .illegal [c])

/-! ### A lexeme is a non-empty start of the text -/

theorem isWordPart_of_isWordStart {c : Char} (h : isWordStart c = true) : isWordPart c = true := by
  simp only [isWordStart, Bool.or_eq_true] at h
  rcases h with h | h <;> simp [isWordPart, h]

theorem word_isPrefix (cs : List Char) : (word cs).slice <+: cs :=
  List.takeWhile_prefix _

theorem number_isPrefix (cs : List Char) : (number cs).slice <+: cs := by
  unfold number
  dsimp only
  split
  · next rest h =>
    conv => rhs; rw [← List.takeWhile_append_dropWhile (p := isDigit) (l := cs), h]
    exact List.prefix_append_right_inj _ |>.2 (List.cons_prefix_cons.2
      ⟨rfl, List.takeWhile_prefix _⟩)
  · exact List.takeWhile_prefix _

theorem quotation_isPrefix (cs : List Char) : (quotation cs).slice <+: '"' :: cs := by
  unfold quotation
  dsimp only
  split
  · exact List.cons_prefix_cons.2 ⟨rfl, List.takeWhile_prefix _⟩
  · next d rest h =>
    have hd : d = '"' := by
      have := List.head_dropWhile_not (p := (· != '"')) (l := cs) (by simp [h])
      simpa [h] using this
    conv => rhs; rw [← List.takeWhile_append_dropWhile (p := (· != '"')) (l := cs), h, hd]
    simp

theorem ofSymbol?_slice {spelling : List Char} {x : Lexeme} (h : ofSymbol? spelling = some x) :
    x.slice = spelling := by
  obtain ⟨k, -, rfl⟩ := Option.map_eq_some_iff.1 h
  rfl

theorem symbol?_isPrefix {cs : List Char} {x : Lexeme} (h : symbol? cs = some x) :
    x.slice <+: cs := by
  rcases Option.or_eq_some_iff.1 h with h | ⟨-, h⟩ <;>
    · rw [ofSymbol?_slice h]
      exact List.take_prefix _ _

theorem ofSymbol?_nil : ofSymbol? [] = none := by decide

theorem symbol?_ne_nil {cs : List Char} {x : Lexeme} (h : symbol? cs = some x) :
    x.slice ≠ [] := by
  intro hx
  rcases Option.or_eq_some_iff.1 h with h | ⟨-, h⟩ <;>
    · rw [← ofSymbol?_slice h, hx, ofSymbol?_nil] at h
      simp at h

/-- The lexeme at the start of a text is a start of the text. -/
theorem first_isPrefix (c : Char) (cs : List Char) : (first c cs).slice <+: c :: cs := by
  unfold first
  split
  · exact word_isPrefix _
  split
  · exact number_isPrefix _
  split
  · next hc => subst hc; exact quotation_isPrefix _
  cases h : symbol? (c :: cs) with
  | some x => exact symbol?_isPrefix h
  | none => exact List.cons_prefix_cons.2 ⟨rfl, List.nil_prefix⟩

/-- The lexeme at the start of a text is not empty. -/
theorem first_ne_nil (c : Char) (cs : List Char) : (first c cs).slice ≠ [] := by
  unfold first
  split
  · next h => simp [word, plain, isWordPart_of_isWordStart h]
  split
  · next h =>
    unfold number
    dsimp only
    split <;> simp [plain, h]
  split
  · unfold quotation
    dsimp only
    split <;> simp [plain]
  cases h : symbol? (c :: cs) with
  | some x => exact symbol?_ne_nil h
  | none => simp [plain]

/-! ### No lexeme ends the input -/

theorem lookup_ne_eof {table : List (List Char × Kind)} (h : ∀ e ∈ table, e.2 ≠ .eof)
    {key : List Char} {k : Kind} (hk : table.lookup key = some k) : k ≠ .eof := by
  obtain ⟨l₁, l₂, h', -⟩ := List.lookup_eq_some_iff.1 hk
  exact h (key, k) (by simp [h'])

theorem first_kind_ne_eof (c : Char) (cs : List Char) : (first c cs).kind ≠ .eof := by
  unfold first
  split
  · unfold word Kind.ofWord
    cases h : Kind.reserved.lookup ((c :: cs).takeWhile isWordPart) with
    | some k => simpa [plain, h] using lookup_ne_eof (by decide) h
    | none => simp [plain, h]
  split
  · unfold number
    dsimp only
    split <;> simp [plain]
  split
  · unfold quotation
    dsimp only
    split <;> simp [plain]
  cases h : symbol? (c :: cs) with
  | none => simp [plain]
  | some x =>
    have ofSymbol {spelling} (h : ofSymbol? spelling = some x) : x.kind ≠ .eof := by
      obtain ⟨k, hk, rfl⟩ := Option.map_eq_some_iff.1 h
      exact lookup_ne_eof (by decide) hk
    rcases Option.or_eq_some_iff.1 h with h | ⟨-, h⟩ <;> exact ofSymbol h

end Lexeme

/-! ## Input -/

/-- The characters not yet read and the place of the first of them. -/
structure Input where
  rest : List Char
  location : Location := {}
  deriving DecidableEq, Repr

namespace Input

/-- A whole source text. -/
def ofSource (source : String) : Input :=
  { rest := source.toList }

/-- The input after a slice at its start. -/
def after (i : Input) (slice : List Char) : Input :=
  { rest := i.rest.drop slice.length, location := i.location.after slice }

/-- Drops trivia; `inComment` tells that the last character belongs to a comment.  The line feed
that ends a comment is trivia itself. -/
def dropTrivia (inComment : Bool) (l : Location) : List Char → Input
  | [] => { rest := [], location := l }
  | c :: cs =>
      if inComment then dropTrivia (c != '\n') (l.step c) cs
      else if isBlank c then dropTrivia false (l.step c) cs
      else if c = '/' ∧ cs.head? = some '/' then dropTrivia true (l.step c) cs
      else { rest := c :: cs, location := l }

/-- The input from the next lexeme on. -/
def skipTrivia (i : Input) : Input :=
  dropTrivia false i.location i.rest

/-- A token at the place where the input stands. -/
def tokenHere (i : Input) (kind : Kind) (text : List Char) : Token :=
  { kind, text := String.ofList text, line := i.location.line, column := i.location.column }

/-- The next token and the input after it; at the end of the input a token that says so. -/
def nextToken (i : Input) : Token × Input :=
  let here := i.skipTrivia
  match here.rest with
  | [] => (here.tokenHere .eof [], here)
  | c :: cs =>
      let x := Lexeme.first c cs
      (here.tokenHere x.kind x.text, here.after x.slice)

theorem length_dropTrivia_le (inComment : Bool) (l : Location) (cs : List Char) :
    (dropTrivia inComment l cs).rest.length ≤ cs.length := by
  induction cs generalizing inComment l with
  | nil => simp [dropTrivia]
  | cons c cs ih =>
    have := ih (c != '\n') (l.step c)
    have := ih false (l.step c)
    have := ih true (l.step c)
    simp only [dropTrivia, List.length_cons]
    split
    · omega
    split
    · omega
    split
    · omega
    · simp

theorem length_skipTrivia_le (i : Input) : i.skipTrivia.rest.length ≤ i.rest.length :=
  length_dropTrivia_le _ _ _

/-- Every token but the end of input shortens the input. -/
theorem length_nextToken_lt {i : Input} (h : i.nextToken.1.kind ≠ .eof) :
    i.nextToken.2.rest.length < i.rest.length := by
  have hle := i.length_skipTrivia_le
  unfold nextToken at h ⊢
  dsimp only at h ⊢
  split
  · next hrest => simp [hrest, tokenHere] at h
  · next c cs hrest =>
    have hpos := List.length_pos_iff.2 (Lexeme.first_ne_nil c cs)
    have : i.skipTrivia.rest.length = cs.length + 1 := by simp [hrest]
    simp only [after, List.length_drop]
    omega

/-- All tokens of the input; the last one, and only that one, is the end of input. -/
def tokens (i : Input) : List Token :=
  if i.nextToken.1.kind = .eof then [i.nextToken.1]
  else i.nextToken.1 :: i.nextToken.2.tokens
termination_by i.rest.length
decreasing_by exact length_nextToken_lt (by assumption)

end Input

/-- The tokens of a source text, the end of input last. -/
def tokenize (source : String) : List Token :=
  (Input.ofSource source).tokens

end FnLang
