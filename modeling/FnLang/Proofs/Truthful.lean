/- # FnLang.Proofs.Truthful — a stream knows where it stands, whatever it is used for.

A stream is read from, looked around in, rewound and cut into tokens, in any order and from the middle
of a word, of a comment or of a symbol.  Its position stays in the text all the while, its line and
column are those of the position, and only reading on at the end of the text fails
(`truthful_under_use`).

Such a stream has read some characters and has the others ahead, and there is no more to it
(`Stream.between`).  So the operations are equations between streams of this form.  That none of the
lexer's scans can fail is not left to their being functions: each goes where single readings go, one
after another, every one of which gives a character (`Stream.Reads`).
-/
import FnLang.Proofs.Slices
import FnLang.Stream

namespace FnLang

/-- The place behind some characters and some more is counted on from the place behind the first. -/
theorem Location.after_behind (before cs : List Char) :
    (behind before).after cs = behind (before ++ cs) := by
  rw [← after_start, ← after_append, after_start]

/-- The next token takes some characters off the input: all of them if it is the end of input, and at
least one if it is not. -/
theorem Input.exists_nextToken (i : Input) :
    ∃ t u v, i.rest = u ++ v ∧ i.nextToken = (t, ⟨v, i.location.after u⟩) ∧
      (t.kind = .eof → v = []) ∧ (t.kind ≠ .eof → u ≠ []) := by
  rcases i.nextToken_cases with ⟨-, hnext⟩ | ⟨u, c, cs, -, -, hrest, hnext⟩
  · exact ⟨_, i.rest, [], (List.append_nil _).symm, hnext, fun _ => rfl, fun h => absurd rfl h⟩
  · obtain ⟨v, hv⟩ := Lexeme.first_isPrefix c cs
    rw [← hv, List.drop_left, ← Location.after_append] at hnext
    exact ⟨_, _, v, by rw [hrest, List.append_assoc, hv], hnext,
      fun h => absurd h (Lexeme.first_kind_ne_eof c cs),
      fun _ => List.append_ne_nil_of_right_ne_nil u (Lexeme.first_ne_nil c cs)⟩

namespace Stream

/-! ## Streams in their text -/

/-- The stream that has read `before` and has `ahead` still to read. -/
def between (before ahead : List Char) : Stream where
  source := before ++ ahead
  position := before.length
  location := .behind before

/-- The stream stands in the text, and its place is that of its position. -/
structure Truthful (text : List Char) (s : Stream) : Prop where
  source_eq : s.source = text
  nonneg : 0 ≤ s.position
  le_length : s.position ≤ text.length
  location_eq : s.location = .behind (text.take s.position.toNat)

theorem truthful_between (before ahead : List Char) :
    (between before ahead).Truthful (before ++ ahead) where
  source_eq := rfl
  nonneg := Int.natCast_nonneg _
  le_length := Int.ofNat_le.2 (by simp)
  location_eq := by simp [between]

/-- What has been read and what is ahead is all that there is to a stream in its text. -/
theorem Truthful.exists_between {text : List Char} {s : Stream} (h : s.Truthful text) :
    ∃ before ahead, before ++ ahead = text ∧ s = between before ahead := by
  obtain ⟨source, position, location⟩ := s
  obtain ⟨hsource, hnonneg, hle, hlocation⟩ := h
  obtain ⟨n, rfl⟩ := Int.eq_ofNat_of_zero_le hnonneg
  have hn : n ≤ text.length := Int.ofNat_le.1 hle
  refine ⟨text.take n, text.drop n, List.take_append_drop n text, ?_⟩
  simpa [between, hn] using ⟨hsource, hlocation⟩

section
variable (before cs ahead : List Char)

@[simp] theorem position_between : (between before ahead).position = before.length := rfl

@[simp] theorem input_between : (between before ahead).input = ⟨ahead, .behind before⟩ := by
  simp [input, between]

@[simp] theorem atEnd_between : (between before ahead).atEnd = ahead.isEmpty := by
  rw [atEnd, position_between, between, List.length_append]
  cases ahead with
  | nil => exact decide_eq_true (Int.le_refl _)
  | cons c ahead =>
      refine decide_eq_false ?_
      rw [List.length_cons]
      omega

theorem position_between_nonneg : ¬ (between before ahead).position < 0 :=
  Int.not_lt.2 (Int.natCast_nonneg _)

/-- A stream moves on to where an input that it has ahead begins. -/
theorem moveTo_between :
    (between before (cs ++ ahead)).moveTo ⟨ahead, .behind (before ++ cs)⟩ =
      between (before ++ cs) ahead := by
  rw [moveTo, input_between]
  simp [between]

end

/-! ## Single readings -/

/-- Reading gives the character ahead. -/
theorem next_between_cons (before ahead : List Char) (c : Char) :
    (between before (c :: ahead)).next = .ok (c, between (before ++ [c]) ahead) := by
  have hindex : ¬ (between before (c :: ahead)).position < leastIndex := by
    simp only [position_between, leastIndex]
    omega
  have hchar : (between before (c :: ahead)).charAt? before.length = some c := by
    simp [charAt?, between]
  rw [next, if_neg (by simp), if_neg hindex, if_neg (position_between_nonneg _ _)]
  simp only [position_between, hchar]
  simp [between, ← Location.after_behind]

/-- At the end of the text there is nothing to read. -/
theorem next_between_nil (before : List Char) :
    (between before []).next = .error (.pastEnd before.length (Location.behind before).line) := by
  rw [next, if_pos (by simp)]
  rfl

/-- `s.Reads cs t`: the characters `cs`, read one after the other, take the stream from `s` to `t`. -/
inductive Reads : Stream → List Char → Stream → Prop
  | nil {s : Stream} : Reads s [] s
  | cons {s t u : Stream} {c : Char} {cs : List Char} :
      s.next = .ok (c, t) → Reads t cs u → Reads s (c :: cs) u

/-- What is ahead can be read. -/
theorem reads_between (before cs ahead : List Char) :
    (between before (cs ++ ahead)).Reads cs (between (before ++ cs) ahead) := by
  induction cs generalizing before with
  | nil => simpa using Reads.nil
  | cons c cs ih =>
      rw [List.cons_append, List.append_cons before c cs]
      exact .cons (next_between_cons before _ c) (ih (before ++ [c]))

/-- Nothing but what is ahead can be read. -/
theorem Reads.exists_between {before ahead cs : List Char} {t : Stream}
    (h : (between before ahead).Reads cs t) :
    ∃ rest, ahead = cs ++ rest ∧ t = between (before ++ cs) rest := by
  induction cs generalizing before ahead with
  | nil =>
      cases h
      exact ⟨ahead, rfl, by rw [List.append_nil]⟩
  | cons c cs ih =>
      cases h with
      | cons hnext hrest =>
          cases ahead with
          | nil => simp [next_between_nil] at hnext
          | cons d ahead =>
              rw [next_between_cons] at hnext
              obtain ⟨rfl, rfl⟩ := Prod.mk.inj (Except.ok.inj hnext)
              obtain ⟨rest, rfl, rfl⟩ := ih hrest
              exact ⟨rest, rfl, by rw [List.append_cons before d cs]⟩

/-- Reading keeps a stream in its text. -/
theorem Reads.truthful {text cs : List Char} {s t : Stream} (h : s.Reads cs t)
    (hs : s.Truthful text) : t.Truthful text := by
  obtain ⟨before, ahead, rfl, rfl⟩ := hs.exists_between
  obtain ⟨rest, rfl, rfl⟩ := h.exists_between
  rw [← List.append_assoc]
  exact truthful_between _ _

/-! ## Scans -/

section
variable (before ahead : List Char)

/-- The rest of a comment is read up to the end of its line. -/
theorem skipComment_between :
    (between before ahead).skipComment =
      .ok (between (before ++ ahead.takeWhile (· != '\n')) (ahead.dropWhile (· != '\n'))) := by
  have hsplit := List.takeWhile_append_dropWhile (p := (· != '\n')) (l := ahead)
  rw [skipComment, if_neg (position_between_nonneg _ _), skipLine, input_between, Input.after,
    Location.after_behind]
  generalize ahead.takeWhile (· != '\n') = line, ahead.dropWhile (· != '\n') = v at hsplit ⊢
  rw [← hsplit, List.drop_left, moveTo_between]

/-- Trivia is read up to where none begins. -/
theorem exists_skipTrivia :
    ∃ u v, ahead = u ++ v ∧ Trivia v.isEmpty u ∧ Bare v ∧
      (between before ahead).skipTrivia = between (before ++ u) v := by
  obtain ⟨u, v, rfl, hdrop, hbare, hu⟩ :=
    Input.exists_dropTrivia false (Location.behind before) ahead
  refine ⟨u, v, rfl, hu, hbare, ?_⟩
  rw [skipTrivia, if_neg (position_between_nonneg _ _), input_between, Input.skipTrivia, hdrop,
    Location.after_behind, moveTo_between]

/-- A symbol is read if there is one. -/
theorem symbol?_between_cases :
    (Lexeme.symbol? ahead = none ∧ (between before ahead).symbol? = none) ∨
    ∃ (x : Lexeme) (v : List Char), Lexeme.symbol? ahead = some x ∧ ahead = x.slice ++ v ∧
      (between before ahead).symbol? =
        some (x.token (.behind before), between (before ++ x.slice) v) := by
  rw [symbol?, if_neg (position_between_nonneg _ _), input_between]
  cases hsymbol : Lexeme.symbol? ahead with
  | none => exact .inl ⟨rfl, rfl⟩
  | some x =>
      obtain ⟨v, rfl⟩ := Lexeme.symbol?_isPrefix hsymbol
      refine .inr ⟨x, v, rfl, rfl, ?_⟩
      rw [Option.map_some, Input.after, List.drop_left, Location.after_behind, moveTo_between]
      rfl

/-- A token is read with the trivia in front of it.  Where there are none but trivia, all of these are
read. -/
theorem exists_nextToken :
    ∃ t u v, ahead = u ++ v ∧ (between before ahead).nextToken = .ok (t, between (before ++ u) v) ∧
      (between before ahead).input.nextToken = (t, (between (before ++ u) v).input) ∧
      (t.kind = .eof → v = []) ∧ (t.kind ≠ .eof → u ≠ []) := by
  obtain ⟨t, u, v, hahead, hnext, hkind⟩ := (between before ahead).input.exists_nextToken
  rw [input_between] at hahead hnext
  subst hahead
  rw [Location.after_behind] at hnext
  refine ⟨t, u, v, rfl, ?_, by rw [input_between, hnext, input_between], hkind⟩
  rw [nextToken, if_neg (position_between_nonneg _ _), input_between, hnext, moveTo_between]

end

/-! ## Iteration -/

/-- `s.Yields ts u`: asked for the next token over and over, the stream gives `ts` and then, at `u`, the
end of input.  To stop half-way is to ask for fewer tokens. -/
inductive Yields : Stream → List Token → Stream → Prop
  | ending {s u : Stream} {t : Token} : s.nextToken = .ok (t, u) → t.kind = .eof → Yields s [] u
  | token {s u v : Stream} {t : Token} {ts : List Token} :
      s.nextToken = .ok (t, u) → t.kind ≠ .eof → Yields u ts v → Yields s (t :: ts) v

theorem Yields.kind_ne_eof {s u : Stream} {ts : List Token} (h : s.Yields ts u) :
    ∀ t ∈ ts, t.kind ≠ .eof := by
  induction h with
  | ending _ _ => exact fun _ ht => absurd ht List.not_mem_nil
  | token _ hkind _ ih => exact List.forall_mem_cons.2 ⟨hkind, ih⟩

/-- The tokens of a stream are what it yields: by induction on the text ahead, of which every token
takes some. -/
theorem yields_between (before ahead : List Char) :
    (between before ahead).Yields (between before ahead).input.tokens.dropLast
      (between (before ++ ahead) []) := by
  obtain ⟨t, u, v, rfl, hnext, hinput, hend, hmove⟩ := exists_nextToken before ahead
  rw [Input.tokens, hinput]
  by_cases hkind : t.kind = .eof
  · obtain rfl := hend hkind
    rw [if_pos hkind, List.append_nil]
    rw [List.append_nil] at hnext
    exact .ending hnext hkind
  · have hlength : v.length < (u ++ v).length := by
      have := List.length_pos_iff.2 (hmove hkind)
      rw [List.length_append]
      omega
    have hrest := yields_between (before ++ u) v
    have htokens : (between (before ++ u) v).input.tokens ≠ [] := by
      obtain ⟨ps, tail, -, htokens⟩ := (between (before ++ u) v).input.exists_cut
      rw [htokens]
      exact List.append_ne_nil_of_right_ne_nil _ (List.cons_ne_nil _ _)
    rw [if_neg hkind, List.dropLast_cons_of_ne_nil htokens, ← List.append_assoc]
    exact .token hnext hkind hrest
termination_by ahead.length

/-- All tokens are read up to the end of the text. -/
theorem tokens_between (before ahead : List Char) :
    (between before ahead).tokens =
      .ok ((between before ahead).input.tokens.dropLast, between (before ++ ahead) []) := by
  have hmove := moveTo_between before ahead []
  rw [List.append_nil] at hmove
  rw [tokens, if_neg (position_between_nonneg _ _), input_between, Input.after, List.drop_length,
    Location.after_behind, hmove]

/-! ## Uses -/

/-- What a stream can be used for. -/
inductive Use where
  | next
  | peek (offset : Int)
  | atEnd
  | rewind
  | skipTrivia
  | skipComment
  | symbol
  | nextToken
  /-- Asks for all tokens up to the end of input. -/
  | tokens

namespace Use

/-- What a use tells. -/
@[reducible] def Answer : Use → Type
  | next => Char
  | peek _ => Option Char
  | atEnd => Bool
  | rewind | skipTrivia | skipComment => Unit
  | symbol => Option Token
  | nextToken => Token
  | tokens => List Token

/-- Uses a stream. -/
def run (s : Stream) : (use : Use) → Except StreamFault (use.Answer × Stream)
  | next => s.next
  | peek offset => .ok (s.peek? offset, s)
  | atEnd => .ok (s.atEnd, s)
  | rewind => .ok ((), s.rewind)
  | skipTrivia => .ok ((), s.skipTrivia)
  | skipComment => s.skipComment.map fun t => ((), t)
  | symbol => .ok (s.symbol?.elim (none, s) fun (token, t) => (some token, t))
  | nextToken => s.nextToken
  | tokens => s.tokens

/-- The stream after a use.  A use that fails leaves it as it is. -/
def after (s : Stream) (use : Use) : Stream :=
  match use.run s with
  | .ok (_, t) => t
  | .error _ => s

/-- What a use comes to in the text, other than going back to the start: some of what is ahead is read,
and only to read at the end fails. -/
theorem run_cases (before ahead : List Char) {use : Use} (h : use ≠ .rewind) :
    (∃ answer cs v, ahead = cs ++ v ∧
      use.run (between before ahead) = .ok (answer, between (before ++ cs) v)) ∨
    (use = .next ∧ ahead = [] ∧ use.run (between before ahead) =
      .error (.pastEnd before.length (Location.behind before).line)) := by
  cases use with
  | next =>
      cases ahead with
      | nil => exact .inr ⟨rfl, rfl, next_between_nil before⟩
      | cons c ahead => exact .inl ⟨c, [c], ahead, rfl, next_between_cons before ahead c⟩
  | peek _ | atEnd => exact .inl ⟨_, [], ahead, rfl, by rw [List.append_nil]; rfl⟩
  | rewind => exact absurd rfl h
  | skipTrivia =>
      obtain ⟨u, v, rfl, -, -, hskip⟩ := exists_skipTrivia before ahead
      exact .inl ⟨(), u, v, rfl, by rw [run, hskip]⟩
  | skipComment =>
      refine .inl ⟨(), _, _, (List.takeWhile_append_dropWhile (p := (· != '\n'))).symm, ?_⟩
      rw [run, skipComment_between]
      rfl
  | symbol =>
      rcases symbol?_between_cases before ahead with ⟨-, hnone⟩ | ⟨x, v, -, rfl, hsome⟩
      · exact .inl ⟨none, [], ahead, rfl, by rw [run, hnone, List.append_nil]; rfl⟩
      · exact .inl ⟨some _, x.slice, v, rfl, by rw [run, hsome]; rfl⟩
  | nextToken =>
      obtain ⟨t, u, v, rfl, hnext, -⟩ := exists_nextToken before ahead
      exact .inl ⟨t, u, v, rfl, hnext⟩
  | tokens => exact .inl ⟨_, ahead, [], (List.append_nil ahead).symm, tokens_between before ahead⟩

end Use

namespace Truthful

variable {text : List Char} {s : Stream}

/-- Only a reading fails, and only at the end. -/
theorem run_eq_error_iff (hs : s.Truthful text) {use : Use} {f : StreamFault} :
    use.run s = .error f ↔
      use = .next ∧ s.position = text.length ∧ f = .pastEnd s.position s.location.line := by
  obtain ⟨before, ahead, rfl, rfl⟩ := hs.exists_between
  constructor
  · intro hf
    have hrewind : use ≠ .rewind := by
      rintro rfl
      simp [Use.run] at hf
    rcases use.run_cases before ahead hrewind with ⟨answer, cs, v, -, hok⟩ | ⟨hnext, rfl, herror⟩
    · simp [hok] at hf
    · exact ⟨hnext, by simp, Except.error.inj (hf.symm.trans herror)⟩
  · rintro ⟨rfl, hend, rfl⟩
    have hahead : ahead = [] := by
      rw [position_between, List.length_append] at hend
      exact List.length_eq_zero_iff.1 (by omega)
    rw [hahead]
    exact next_between_nil before

/-- A stream goes on by single readings, or back to the start. -/
theorem exists_reads_after (hs : s.Truthful text) {use : Use} (h : use ≠ .rewind) :
    ∃ cs, s.Reads cs (use.after s) := by
  obtain ⟨before, ahead, rfl, rfl⟩ := hs.exists_between
  rcases use.run_cases before ahead h with ⟨answer, cs, v, rfl, hok⟩ | ⟨-, -, herror⟩
  · rw [Use.after, hok]
    exact ⟨cs, reads_between before cs v⟩
  · rw [Use.after, herror]
    exact ⟨[], .nil⟩

theorem rewind_eq (hs : s.Truthful text) : s.rewind = between [] text := by
  rw [rewind, hs.source_eq]
  rfl

/-- A use keeps a stream in its text. -/
theorem after (hs : s.Truthful text) (use : Use) : (use.after s).Truthful text := by
  by_cases hrewind : use = .rewind
  · subst hrewind
    show s.rewind.Truthful text
    rw [hs.rewind_eq]
    exact truthful_between [] text
  · obtain ⟨cs, hreads⟩ := hs.exists_reads_after hrewind
    exact hreads.truthful hs

/-- And so do some uses, one after the other. -/
theorem foldl_after (hs : s.Truthful text) (uses : List Use) :
    (uses.foldl Use.after s).Truthful text := by
  induction uses generalizing s with
  | nil => exact hs
  | cons use uses ih => exact ih (hs.after use)

/-- The next token is found, and further on than the stream stands unless it is the end of input. -/
theorem exists_nextToken (hs : s.Truthful text) :
    ∃ token t, s.nextToken = .ok (token, t) ∧
      (token.kind = .eof ∧ t.position = text.length ∨
        token.kind ≠ .eof ∧ s.position < t.position) := by
  obtain ⟨before, ahead, rfl, rfl⟩ := hs.exists_between
  obtain ⟨token, u, v, rfl, hnext, -, hend, hmove⟩ := Stream.exists_nextToken before ahead
  refine ⟨token, _, hnext, ?_⟩
  rw [position_between, position_between]
  by_cases hkind : token.kind = .eof
  · exact .inl ⟨hkind, by rw [hend hkind, List.append_nil]⟩
  · have hpos := List.length_pos_iff.2 (hmove hkind)
    refine .inr ⟨hkind, ?_⟩
    rw [List.length_append]
    omega

/-- All tokens are the next token over and over. -/
theorem exists_yields (hs : s.Truthful text) :
    ∃ tokens t, s.tokens = .ok (tokens, t) ∧ s.Yields tokens t := by
  obtain ⟨before, ahead, rfl, rfl⟩ := hs.exists_between
  exact ⟨_, _, tokens_between before ahead, yields_between before ahead⟩

end Truthful

/-- From the start of a text all its tokens are yielded but the end of input. -/
theorem exists_tokens_ofSource (source : String) :
    ∃ tokens ending t, tokenize source = tokens ++ [ending] ∧ ending.kind = .eof ∧
      (∀ token ∈ tokens, token.kind ≠ .eof) ∧ (ofSource source).tokens = .ok (tokens, t) := by
  obtain ⟨ps, tail, -, htokens⟩ := (Input.ofSource source).exists_cut
  have hinput : (between [] source.toList).input.tokens.dropLast = ps.map Piece.token := by
    rw [input_between]
    exact (congrArg List.dropLast htokens).trans List.dropLast_concat
  have hyields := yields_between [] source.toList
  have hall := tokens_between [] source.toList
  rw [hinput] at hyields hall
  exact ⟨_, _, _, htokens, rfl, hyields.kind_ne_eof, hall⟩

/-- The stream over a source text after some uses, one after the other. -/
def used (source : String) (uses : List Use) : Stream :=
  uses.foldl Use.after (ofSource source)

theorem used_concat (source : String) (uses : List Use) (use : Use) :
    used source (uses ++ [use]) = use.after (used source uses) := by
  rw [used, List.foldl_append]
  rfl

/-- Whatever a stream is used for, in any order, it stands in its text and knows the place where.  Only
a reading at the end of the text fails, and changes nothing.  Everything but a rewinding goes on by
single readings, all of which succeed.  The next token is always found, and further on, unless it is
the end of input; all of them together are the next token over and over; and from the start again they
are the tokens of the text. -/
theorem truthful_under_use (source : String) (uses : List Use) :
    (used source uses).Truthful source.toList ∧
    (∀ (use : Use) (fault : StreamFault), use.run (used source uses) = .error fault ↔
      use = .next ∧ (used source uses).position = source.length ∧
        fault = .pastEnd (used source uses).position (used source uses).location.line) ∧
    (∀ (use : Use) (fault : StreamFault), use.run (used source uses) = .error fault →
      used source (uses ++ [use]) = used source uses) ∧
    (∀ use ≠ Use.rewind, ∃ cs, (used source uses).Reads cs (used source (uses ++ [use]))) ∧
    (∃ token s, (used source uses).nextToken = .ok (token, s) ∧
      (token.kind = .eof ∧ s.position = source.length ∨
        token.kind ≠ .eof ∧ (used source uses).position < s.position)) ∧
    (∃ tokens s, (used source uses).tokens = .ok (tokens, s) ∧ (used source uses).Yields tokens s) ∧
    ∃ tokens ending s, tokenize source = tokens ++ [ending] ∧ ending.kind = .eof ∧
      (∀ token ∈ tokens, token.kind ≠ .eof) ∧
      (used source (uses ++ [.rewind])).tokens = .ok (tokens, s) := by
  have hused : (used source uses).Truthful source.toList :=
    (truthful_between [] source.toList).foldl_after uses
  have hrewound : used source (uses ++ [.rewind]) = ofSource source :=
    (used_concat source uses .rewind).trans hused.rewind_eq
  rw [hrewound, ← String.length_toList]
  refine ⟨hused, fun use fault => hused.run_eq_error_iff, fun use fault hfault => ?_,
    fun use huse => ?_, hused.exists_nextToken, hused.exists_yields, exists_tokens_ofSource source⟩
  · rw [used_concat, Use.after, hfault]
  · rw [used_concat]
    exact hused.exists_reads_after huse

end Stream

end FnLang
