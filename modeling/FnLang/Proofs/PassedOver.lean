/- # FnLang.Proofs.PassedOver — the code that a session passes over.

A session passes over an entry that begins with a comment.  An entry can have many lines, though, and
a comment ends with its line: what comes on the lines after it are tokens like any others, and those
are passed over with it.  This is the only way in which a session loses code (`Turn.keepsCode_iff`).

Two facts about the lexer are behind this.  A text without tokens is all trivia, so a trimmed text
that is neither empty nor begins with a comment has one (`hasCode_of_trim`); and the tokens of a text
that begins with a comment are those after its first line (`hasCode_comment_iff`).
-/
import FnLang.Proofs.Turns

namespace FnLang

open Text

/-! ## Texts with tokens -/

/-- Some token stands in the text. -/
def HasCode (source : String) : Prop :=
  ∃ t ∈ tokenize source, t.kind ≠ .eof

instance (source : String) : Decidable (HasCode source) :=
  inferInstanceAs (Decidable (∃ t ∈ tokenize source, t.kind ≠ .eof))

/-- What stands after the first line of a text, with the line break. -/
def afterFirstLine (source : String) : String :=
  String.ofList (source.toList.dropWhile (· != '\n'))

theorem pending_eq_nil_iff (i : Input) :
    (TokenSource.text i).pending = [] ↔ i.skipTrivia.rest = [] := by
  have hkind : i.nextToken.1.kind = .eof ↔ i.skipTrivia.rest = [] := by
    unfold Input.nextToken
    dsimp only
    cases i.skipTrivia.rest with
    | nil => exact ⟨fun _ => rfl, fun _ => rfl⟩
    | cons c cs =>
        exact ⟨fun h => absurd h (Lexeme.first_kind_ne_eof c cs), fun h => absurd h (by simp)⟩
  rw [← hkind]
  constructor
  · intro hnil
    by_contra heof
    rw [TokenSource.pending_of_ne_eof (s := .text i) heof] at hnil
    exact absurd hnil (by simp)
  · exact fun heof => TokenSource.pending_of_eof (s := .text i) heof

theorem hasCode_iff_pending (source : String) :
    HasCode source ↔ (TokenSource.ofText source).pending ≠ [] := by
  rw [← TokenSource.filter_tokenize, ne_eq, List.filter_eq_nil_iff]
  simp [HasCode]

/-- A text has a token exactly if something is left when trivia are dropped at its start. -/
theorem hasCode_iff (source : String) :
    HasCode source ↔ (Input.dropTrivia false {} source.toList).rest ≠ [] := by
  rw [hasCode_iff_pending]
  exact not_congr (pending_eq_nil_iff (Input.ofSource source))

/-! ## Comments -/

namespace Input

/-- Which trivia are dropped does not depend on where the text stands. -/
theorem rest_dropTrivia_congr (inComment : Bool) (l l' : Location) (cs : List Char) :
    (dropTrivia inComment l cs).rest = (dropTrivia inComment l' cs).rest := by
  induction cs generalizing inComment l l' with
  | nil => rfl
  | cons c cs ih =>
      rw [dropTrivia, dropTrivia]
      split
      · exact ih _ _ _
      split
      · exact ih _ _ _
      split
      · exact ih _ _ _
      · rfl

/-- Inside a comment the rest of the line is dropped, and what comes after it as after any trivia. -/
theorem rest_dropTrivia_comment (l l' : Location) (cs : List Char) :
    (dropTrivia true l cs).rest = (dropTrivia false l' (cs.dropWhile (· != '\n'))).rest := by
  induction cs generalizing l with
  | nil => rfl
  | cons c cs ih =>
      by_cases hc : c = '\n'
      · subst hc
        exact rest_dropTrivia_congr false _ _ cs
      · have hne : (c != '\n') = true := bne_iff_ne.2 hc
        rw [dropTrivia, if_pos rfl, List.dropWhile_cons, if_pos hne, hne]
        exact ih _

end Input

/-- The tokens of a text that begins with a comment stand after its first line. -/
theorem hasCode_comment_iff {source : String} (h : ['/', '/'].isPrefixOf source.toList = true) :
    HasCode source ↔ HasCode (afterFirstLine source) := by
  obtain ⟨cs, hcs⟩ := List.isPrefixOf_iff_prefix.1 h
  rw [hasCode_iff, hasCode_iff, afterFirstLine, String.toList_ofList, ← hcs]
  refine not_congr (Eq.congr_left ?_)
  exact Input.rest_dropTrivia_comment _ {} cs

/-! ## Trimmed texts -/

/-- A trimmed text begins with no blank. -/
theorem Text.isBlank_head_trim {s : String} {c : Char} (h : c ∈ (trim s).toList.head?) :
    isBlank c = false := by
  have hstart : trimBy isBlank s.toList <+: s.toList.dropWhile isBlank := by
    rw [← List.reverse_suffix, trimBy, List.reverse_reverse]
    exact List.dropWhile_suffix _
  rw [trim, String.toList_ofList] at h
  cases htrim : trimBy isBlank s.toList with
  | nil => rw [htrim] at h; exact absurd h (by simp)
  | cons d ds =>
      obtain ⟨rest, hrest⟩ := hstart
      rw [htrim] at h hrest
      obtain rfl : d = c := by simpa using h
      have hhead := List.head?_dropWhile_not isBlank s.toList
      rw [← hrest] at hhead
      simpa using hhead

/-- A trimmed text that is not empty and does not begin with a comment has a token. -/
theorem hasCode_of_trim {s : String} (h : Repl.isPassedOver (trim s) = false) :
    HasCode (trim s) := by
  rw [Repl.isPassedOver, Bool.or_eq_false_iff] at h
  obtain ⟨hempty, hcomment⟩ := h
  rw [hasCode_iff]
  cases hs : (trim s).toList with
  | nil =>
      rw [String.toList_eq_nil_iff] at hs
      rw [hs] at hempty
      exact absurd hempty (by decide)
  | cons c cs =>
      have hblank : isBlank c = false := Text.isBlank_head_trim (s := s) (by rw [hs]; rfl)
      have hslash : ¬ (c = '/' ∧ cs.head? = some '/') := by
        rintro ⟨rfl, hnext⟩
        obtain ⟨ds, rfl⟩ := List.head?_eq_some_iff.1 hnext
        rw [hs] at hcomment
        exact absurd hcomment (by simp)
      rw [Input.dropTrivia, if_neg (by simp), if_neg (by simp [hblank]), if_neg hslash]
      simp

/-! ## What comes of code -/

/-- A text with a token has a statement or an error. -/
theorem outcomes_ne_nil {source : String} (h : HasCode source) :
    (parseText source).outcomes ≠ [] := by
  rw [hasCode_iff_pending, ← Cursor.upcoming_start] at h
  cases hmove : (Cursor.start (.ofText source)).advance? with
  | none => exact absurd (Cursor.upcoming_eq_nil_iff.2 (Cursor.advance?_eq_none_iff.1 hmove)) h
  | some c =>
      show (Cursor.start (.ofText source)).attempts.map Attempt.outcome ≠ []
      rw [Cursor.attempts_of_some hmove]
      simp

namespace Repl

namespace Turn

/-- The entry is a command. -/
def IsCommand (t : Turn) : Prop :=
  isCommand "verbose-mode" t.text = true ∨ isCommand "tokens-mode" t.text = true

instance (t : Turn) : Decidable t.IsCommand :=
  inferInstanceAs (Decidable (_ ∨ _))

/-- No code of the entry is lost: if it has any, all its statements and errors are shown, unless the
entry is a command. -/
def KeepsCode (t : Turn) : Prop :=
  ¬ t.IsCommand → HasCode t.text → t.shown = String.join (t.sourceLines.map outputLine)

instance (t : Turn) : Decidable t.KeepsCode :=
  inferInstanceAs (Decidable (¬ _ → _ → _))

/-- What is shown for code is not nothing. -/
theorem join_sourceLines_ne_empty {t : Turn} (h : HasCode t.text) :
    String.join (t.sourceLines.map outputLine) ≠ "" := by
  have hlines : t.sourceLines ≠ [] := by
    intro hnil
    have hcount := (parseText t.text).length_outcomes
    have houtcomes := List.length_pos_iff.2 (outcomes_ne_nil h)
    rw [sourceLines, List.append_eq_nil_iff, List.append_eq_nil_iff, List.flatMap_eq_nil_iff,
      List.map_eq_nil_iff] at hnil
    obtain ⟨⟨-, hstatements⟩, herrors⟩ := hnil
    have hnone : (parseText t.text).statements = [] :=
      List.eq_nil_iff_forall_not_mem.2 fun s hs => absurd (hstatements s hs) (by simp)
    rw [hcount, hnone, herrors] at houtcomes
    exact absurd houtcomes (by decide)
  obtain ⟨line, lines, hcons⟩ := List.exists_cons_of_ne_nil hlines
  rw [hcons, List.map_cons, String.join_cons, outputLine]
  intro hempty
  have hlength := congrArg String.length hempty
  simp at hlength

/-- An entry that is passed over has no code, unless it begins with a comment. -/
theorem comment_of_isPassedOver {text : String} (h : isPassedOver text = true)
    (hcode : HasCode text) : ['/', '/'].isPrefixOf text.toList = true := by
  rw [isPassedOver, Bool.or_eq_true] at h
  refine h.resolve_left fun hempty => ?_
  rw [String.isEmpty_iff] at hempty
  subst hempty
  exact absurd hcode (by decide +kernel)

/-- The code of an entry is kept exactly if the entry does not begin with a comment or has no token
after its first line.  For an entry without code nothing is shown. -/
theorem keepsCode_iff (m : Modes) (events : List Event) {t : Turn}
    (ht : t ∈ Session.turns { modes := m } events) :
    (t.KeepsCode ↔ (['/', '/'].isPrefixOf t.text.toList = true → ¬ HasCode (afterFirstLine t.text))) ∧
      (¬ HasCode t.text → t.shown = "") := by
  obtain ⟨-, hshown⟩ := Session.isEntry_of_mem (Session.waits_start m) t ht
  have hanswered := isAnswered hshown
  refine ⟨⟨fun hkeeps hcomment hafter => ?_, fun hsafe hcommand hcode => ?_⟩, fun hnone => ?_⟩
  · have hcode := (hasCode_comment_iff hcomment).2 hafter
    have hpassed : isPassedOver t.text = true := by rw [isPassedOver, hcomment, Bool.or_true]
    obtain ⟨hverbose, htokens⟩ := isCommand_of_isPassedOver hpassed
    have hlines := hkeeps (by simp [IsCommand, hverbose, htokens]) hcode
    rw [hanswered.passedOver hpassed] at hlines
    exact join_sourceLines_ne_empty hcode hlines.symm
  · cases hpassed : isPassedOver t.text with
    | true =>
        have hcomment := comment_of_isPassedOver hpassed hcode
        exact absurd ((hasCode_comment_iff hcomment).1 hcode) (hsafe hcomment)
    | false =>
        rw [IsCommand, not_or, Bool.not_eq_true, Bool.not_eq_true] at hcommand
        exact hanswered.source ⟨hpassed, hcommand⟩
  · cases hpassed : isPassedOver t.text with
    | true => exact hanswered.passedOver hpassed
    | false => exact absurd (hasCode_of_trim hpassed) hnone

/-- A comment loses nothing, and neither does a function with a comment in it; a comment that opens a
brace loses what stands behind it on the next line. -/
theorem keepsCode_iff_examples :
    let events : List Event :=
      ["// 1", "fn () \x7b", "// 2", "\x7d", "// \x7b", "3 // \x7d"].map .line
    ∃ comment function hidden : Turn,
      Session.turns { modes := {} } events = [comment, function, hidden] ∧
      comment.KeepsCode ∧ function.KeepsCode ∧ hidden.lines = ["// \x7b", "3 // \x7d"] ∧
      ¬ hidden.KeepsCode := by
  intro events
  have hturns : Session.turns { modes := {} } events =
      [⟨["// 1"], {}, ""⟩, ⟨["fn () \x7b", "// 2", "\x7d"], {}, "fn () \x7b \x7d\n"⟩,
        ⟨["// \x7b", "3 // \x7d"], {}, ""⟩] := by
    decide +kernel
  have hkeeps {t : Turn} (ht : t ∈ Session.turns { modes := {} } events) :=
    (keepsCode_iff {} events ht).1
  refine ⟨_, _, _, hturns, (hkeeps (by simp [hturns])).2 (by decide +kernel),
    (hkeeps (by simp [hturns])).2 (by decide +kernel), rfl, fun hkept => ?_⟩
  exact (hkeeps (by simp [hturns])).1 hkept (by decide +kernel) (by decide +kernel)

/-- The braces in two comments make one entry of three lines, and the statement between the comments
is passed over. -/
theorem commentedBraces_lose_statement :
    ∃ t ∈ Session.turns { modes := {} } (["// \x7b", "let x = 1;", "// \x7d"].map .line),
      ¬ t.IsCommand ∧ HasCode t.text ∧ t.sourceLines = ["let x = 1;"] ∧ t.shown = "" ∧
        ¬ t.KeepsCode := by
  decide +kernel

end Turn

end Repl

end FnLang
