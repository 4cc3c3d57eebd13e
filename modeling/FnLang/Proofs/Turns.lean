/- # FnLang.Proofs.Turns — a session is its entries, one after the other.

A session reacts to single events, with lines kept back until they make an entry.  Seen as a whole it
is a list of turns, each of them an entry with what is shown for it, and a way in which it ends
(`Session.turns`, `Session.ending`).  The lines of the turns and of the end are the lines that were
read, in their order; an entry goes on while more braces are open than closed, and the modes at an
entry are those of the start, switched by the entries before it (`transcript_turns`).

The invariant of a waiting session is that its lines are `Unfinished`.  What one more line does to
them is said once, by `Pending.read_cases`, and the run follows by induction on the events.
-/
import Mathlib.Logic.Function.Iterate
import FnLang.Proofs.Lines

namespace FnLang.Repl

/-! ## Entries -/

/-- The lines wait for more: at no point were as many braces closed as opened, and the first of them
does not ask to leave. -/
structure Unfinished (lines : List String) : Prop where
  opens : ∀ us, us ≠ [] → us <+: lines → 0 < openBraces us
  stays : ∀ l ∈ lines.head?, isLeaving l = false

/-- The lines are an entry: the shortest run of lines in which no more braces are opened than closed.
Its first line does not ask to leave. -/
structure IsEntry (lines : List String) : Prop where
  ne_nil : lines ≠ []
  closed : openBraces lines ≤ 0
  shortest : ∀ us, us ≠ [] → us <+: lines → us ≠ lines → 0 < openBraces us
  stays : ∀ l ∈ lines.head?, isLeaving l = false

/-- The text of an entry. -/
def entryText (lines : List String) : String :=
  Text.trim ("\n".intercalate lines)

/-- The prompts for some lines that are read one after the other. -/
def prompts : Nat → String
  | 0 => ""
  | n + 1 => ">> " ++ String.join (List.replicate n ".. ")

theorem prompts_append_prompt (p : Pending) :
    prompts p.lines.length ++ p.prompt = prompts (p.lines.length + 1) := by
  obtain ⟨lines⟩ := p
  cases lines with
  | nil => rfl
  | cons l ls =>
      show ">> " ++ _ ++ ".. " = ">> " ++ _
      rw [List.length_cons, List.replicate_succ', String.join_append, String.append_assoc]
      simp

namespace Unfinished

theorem nil : Unfinished [] :=
  ⟨fun _ hne h => absurd (List.prefix_nil.1 h) hne, by simp⟩

variable {lines : List String} {l : String}

/-- A start of the lines with one more is a start of the lines, or all. -/
theorem open_append (h : Unfinished lines) {us : List String} (hus : us ≠ [])
    (hstart : us <+: lines ++ [l]) (hne : us ≠ lines ++ [l]) : 0 < openBraces us :=
  h.opens us hus ((List.prefix_concat_iff.1 hstart).resolve_left hne)

theorem stays_append (h : Unfinished lines) (hl : lines = [] → isLeaving l = false) :
    ∀ first ∈ (lines ++ [l]).head?, isLeaving first = false := by
  cases lines with
  | nil => simpa using hl rfl
  | cons first ls => exact h.stays

end Unfinished

/-- What a line makes of the lines before it: it asks to leave where an entry would begin, it
finishes the entry, or the entry goes on. -/
theorem Pending.read_cases {p : Pending} (h : Unfinished p.lines) (l : String) :
    (p.lines = [] ∧ isLeaving l = true ∧ p.read l = .leave) ∨
    (IsEntry (p.lines ++ [l]) ∧ p.read l = .entry (entryText (p.lines ++ [l]))) ∨
    Unfinished (p.lines ++ [l]) ∧ p.read l = .unfinished ⟨p.lines ++ [l]⟩ := by
  by_cases hleave : p.lines = [] ∧ isLeaving l = true
  · refine .inl ⟨hleave.1, hleave.2, ?_⟩
    rw [read, hleave.1, hleave.2]
    rfl
  · have hstays := h.stays_append (l := l) fun hnil => by
      rw [Bool.eq_false_iff]
      exact fun hl => hleave ⟨hnil, hl⟩
    have hcond : ¬ (p.lines.isEmpty && isLeaving l) = true := by simpa using hleave
    rw [read, if_neg hcond]
    by_cases hclosed : openBraces (p.lines ++ [l]) ≤ 0
    · refine .inr (.inl ⟨⟨by simp, hclosed, ?_, hstays⟩, if_pos hclosed⟩)
      exact fun us hus hstart hne => h.open_append hus hstart hne
    · refine .inr (.inr ⟨⟨fun us hus hstart => ?_, hstays⟩, if_neg hclosed⟩)
      by_cases hall : us = p.lines ++ [l]
      · rw [hall]
        omega
      · exact h.open_append hus hstart hall

/-- Reading the lines of an entry that goes on from the lines `p` gives the entry, whatever comes
after them: by induction on the lines that are still to come. -/
theorem readEntry_of_isEntry {p : Pending} {ls : List String} (h : Unfinished p.lines)
    (hne : ls ≠ []) (hentry : IsEntry (p.lines ++ ls)) (rest : List Event) :
    prompts p.lines.length ++ (readEntry p (ls.map .line ++ rest)).1 =
        prompts (p.lines ++ ls).length ∧
      (readEntry p (ls.map .line ++ rest)).2 = .entry (entryText (p.lines ++ ls)) := by
  induction ls generalizing p with
  | nil => exact absurd rfl hne
  | cons l ls ih =>
      have hsplit : p.lines ++ l :: ls = (p.lines ++ [l]) ++ ls := by simp
      rw [List.map_cons, List.cons_append, readEntry]
      rcases p.read_cases h l with ⟨hnil, hleave, -⟩ | ⟨hclosed, hread⟩ | ⟨hopen, hread⟩
      · have hstays := hentry.stays l (by rw [hnil]; rfl)
        rw [hleave] at hstays
        exact absurd hstays (by decide)
      · rw [hread]
        -- an entry within an entry is all of it
        have hall : ls = [] := by
          by_contra hls
          have hpos := hentry.shortest (p.lines ++ [l]) (by simp) ⟨ls, hsplit.symm⟩ (by
            rw [hsplit]
            simpa using hls)
          have := hclosed.closed
          omega
        subst hall
        refine ⟨?_, rfl⟩
        rw [List.length_append]
        exact prompts_append_prompt p
      · rw [hread]
        have hls : ls ≠ [] := by
          rintro rfl
          have hpos := hopen.opens _ (by simp) (List.prefix_refl _)
          have := hentry.closed
          omega
        rw [hsplit] at hentry ⊢
        obtain ⟨hprompts, hresult⟩ := ih hopen hls hentry
        refine ⟨?_, hresult⟩
        rw [← hprompts, List.length_append]
        show prompts _ ++ (p.prompt ++ _) = _
        rw [← String.append_assoc, prompts_append_prompt]
        rfl

/-! ## Modes -/

/-- A command is no entry that is passed over. -/
theorem isPassedOver_of_isCommand {word text : String} (h : isCommand word text = true)
    (hword : word.toList.head? ≠ none ∧ word.toList.head? ≠ some '/') :
    isPassedOver text = false := by
  have hmap : text.toList.map asciiLower = word.toList := by simpa [isCommand] using h
  rw [← hmap] at hword
  unfold isPassedOver
  cases htext : text.toList with
  | nil => simp [htext] at hword
  | cons c cs =>
      have hempty : text.isEmpty = false := by
        rw [Bool.eq_false_iff]
        intro hempty
        rw [String.isEmpty_iff] at hempty
        simp [hempty] at htext
      have hslash : ('/' == c) = false := by
        rw [beq_eq_false_iff_ne]
        rintro rfl
        exact hword.2 (by rw [htext]; rfl)
      rw [hempty, Bool.false_or, List.isPrefixOf, hslash, Bool.false_and]

/-- What is passed over is no command. -/
theorem isCommand_of_isPassedOver {text : String} (h : isPassedOver text = true) :
    isCommand "verbose-mode" text = false ∧ isCommand "tokens-mode" text = false := by
  constructor
  · rw [Bool.eq_false_iff]
    intro hverbose
    rw [isPassedOver_of_isCommand hverbose (by decide +kernel)] at h
    exact absurd h (by decide)
  · rw [Bool.eq_false_iff]
    intro htokens
    rw [isPassedOver_of_isCommand htokens (by decide +kernel)] at h
    exact absurd h (by decide)

/-- The modes after some entries: each command among them has switched its mode. -/
def Modes.after (m : Modes) (texts : List String) : Modes where
  verbose := not^[texts.countP (isCommand "verbose-mode")] m.verbose
  tokens := not^[texts.countP (isCommand "tokens-mode")] m.tokens

theorem Modes.after_cons (m : Modes) (text : String) (texts : List String) :
    m.after (text :: texts) = (m.after [text]).after texts := by
  simp only [Modes.after, List.countP_cons, List.countP_nil, Nat.zero_add]
  rw [Function.iterate_add_apply, Function.iterate_add_apply]

/-- A text is the command for one word at most. -/
theorem isCommand_eq_false {word other text : String} (h : isCommand word text = true)
    (hne : word ≠ other) : isCommand other text = false := by
  have hmap : text.toList.map asciiLower = word.toList := by simpa [isCommand] using h
  rw [isCommand, hmap, beq_eq_false_iff_ne]
  exact fun heq => hne (String.toList_inj.1 heq)

/-! ### The reaction to an entry -/

section Handle

variable {m : Modes} {text : String}

theorem handle_of_isPassedOver (h : isPassedOver text = true) : handle m text = (m, "") :=
  if_pos h

theorem handle_of_verbose (h : isCommand "verbose-mode" text = true) :
    handle m text = ({ m with verbose := !m.verbose }, modeLine "Verbose" (!m.verbose)) := by
  have hpassed := isPassedOver_of_isCommand h (by decide +kernel)
  rw [handle, if_neg (by simp [hpassed]), if_pos h]

theorem handle_of_tokens (h : isCommand "tokens-mode" text = true) :
    handle m text = ({ m with tokens := !m.tokens }, modeLine "Tokens" (!m.tokens)) := by
  have hpassed := isPassedOver_of_isCommand h (by decide +kernel)
  have hverbose : isCommand "verbose-mode" text = false := isCommand_eq_false h (by decide)
  rw [handle, if_neg (by simp [hpassed]), if_neg (by simp [hverbose]), if_pos h]

theorem handle_of_source (hpassed : isPassedOver text = false)
    (hverbose : isCommand "verbose-mode" text = false)
    (htokens : isCommand "tokens-mode" text = false) :
    handle m text = (m, evaluate m text) := by
  rw [handle, if_neg (by simp [hpassed]), if_neg (by simp [hverbose]), if_neg (by simp [htokens])]

end Handle

/-- An entry switches the mode that it is the command for, and no other. -/
theorem handle_fst (m : Modes) (text : String) : (handle m text).1 = m.after [text] := by
  cases hpassed : isPassedOver text with
  | true =>
      obtain ⟨hverbose, htokens⟩ := isCommand_of_isPassedOver hpassed
      rw [handle_of_isPassedOver hpassed]
      simp [Modes.after, hverbose, htokens]
  | false =>
      cases hverbose : isCommand "verbose-mode" text with
      | true =>
          have htokens : isCommand "tokens-mode" text = false :=
            isCommand_eq_false hverbose (by decide)
          rw [handle_of_verbose hverbose]
          simp [Modes.after, hverbose, htokens]
      | false =>
          cases htokens : isCommand "tokens-mode" text with
          | true =>
              rw [handle_of_tokens htokens]
              simp [Modes.after, hverbose, htokens]
          | false =>
              rw [handle_of_source hpassed hverbose htokens]
              simp [Modes.after, hverbose, htokens]

/-! ## Turns -/

/-- A turn of a session: the lines of an entry, the modes they were read in, and what was shown. -/
structure Turn where
  lines : List String
  modes : Modes
  shown : String
  deriving DecidableEq

/-- How a session ends, with the events that are left unread: a line that asks to leave, an interrupt
or the end of the lines.  The last two may leave an entry unfinished. -/
inductive SessionEnd where
  | leave (line : String) (unread : List Event)
  | interrupt (unfinished : List String) (unread : List Event)
  | done (unfinished : List String)

namespace SessionEnd

/-- The events from the last entry on. -/
def events : SessionEnd → List Event
  | leave line unread => .line line :: unread
  | interrupt unfinished unread => unfinished.map .line ++ .interrupt :: unread
  | done unfinished => unfinished.map .line

/-- What is written after the last entry. -/
def shown : SessionEnd → String
  | leave _ _ => prompts 1 ++ farewell
  | interrupt unfinished _ | done unfinished =>
      prompts (unfinished.length + 1) ++ "\n" ++ farewell

/-- A session is left by a line that asks for it; the lines that it ends in the middle of wait for
more. -/
def IsProper : SessionEnd → Prop
  | leave line _ => isLeaving line = true
  | interrupt unfinished _ | done unfinished => Unfinished unfinished

end SessionEnd

namespace Turn

/-- The text of the entry. -/
def text (t : Turn) : String :=
  entryText t.lines

/-- The entry reaches the parser. -/
def IsSource (t : Turn) : Prop :=
  isPassedOver t.text = false ∧ isCommand "verbose-mode" t.text = false ∧
    isCommand "tokens-mode" t.text = false

/-- The lines that are shown for the entry if it reaches the parser: its tokens in tokens mode, its
statements, each with its data in verbose mode, and its errors. -/
def sourceLines (t : Turn) : List String :=
  (if t.modes.tokens then
      ["[tokens] >>> " ++ " ".intercalate ((tokenize t.text).dropLast.map Token.display)]
    else []) ++
  (parseText t.text).statements.flatMap
    (fun s => s.text :: if t.modes.verbose then [s.toJson.write] else []) ++
  (parseText t.text).errors.map fun err => "[error] >>> " ++ err.text

/-- What is shown is the answer to the entry, and nothing besides. -/
structure IsAnswered (t : Turn) : Prop where
  passedOver : isPassedOver t.text = true → t.shown = ""
  verbose : isCommand "verbose-mode" t.text = true →
    t.shown = modeLine "Verbose" (!t.modes.verbose)
  tokens : isCommand "tokens-mode" t.text = true → t.shown = modeLine "Tokens" (!t.modes.tokens)
  source : t.IsSource → t.shown = String.join (t.sourceLines.map outputLine)
  /-- The statements that are shown have texts. -/
  rendered : ∀ s ∈ (parseText t.text).statements, s.render = .ok s.text

theorem join_flatMap {α : Type} (xs : List α) (f : α → List String) :
    String.join ((xs.flatMap f).map outputLine) =
      String.join (xs.map fun x => String.join ((f x).map outputLine)) := by
  induction xs with
  | nil => rfl
  | cons x xs ih =>
      rw [List.flatMap_cons, List.map_append, String.join_append, ih, List.map_cons,
        String.join_cons]

theorem evaluate_eq (t : Turn) :
    evaluate t.modes t.text = String.join (t.sourceLines.map outputLine) := by
  have htokens : (if t.modes.tokens then tokensLine t.text else "") =
      String.join ((if t.modes.tokens then ["[tokens] >>> " ++
        " ".intercalate ((tokenize t.text).dropLast.map Token.display)] else []).map outputLine) := by
    cases t.modes.tokens <;> simp [tokensLine]
  have hstatement (s : Node) : statementLines t.modes s =
      String.join ((s.text :: if t.modes.verbose then [s.toJson.write] else []).map outputLine) := by
    unfold statementLines
    cases t.modes.verbose <;> simp
  rw [evaluate, htokens, funext hstatement, sourceLines, List.map_append, List.map_append,
    String.join_append, String.join_append, join_flatMap, List.map_map]
  rfl

theorem isAnswered {t : Turn} (h : t.shown = (handle t.modes t.text).2) : t.IsAnswered := by
  constructor
  · intro hpassed
    rw [h, handle_of_isPassedOver hpassed]
  · intro hverbose
    rw [h, handle_of_verbose hverbose]
  · intro htokens
    rw [h, handle_of_tokens htokens]
  · rintro ⟨hpassed, hverbose, htokens⟩
    rw [h, handle_of_source hpassed hverbose htokens]
    exact t.evaluate_eq
  · intro s hs
    obtain ⟨text, hrender, -⟩ := oneLine_of_mem_statements hs
    rw [Node.text, hrender]

end Turn

namespace Session

/-- The entries that a session reads, each with what it shows for it. -/
def turns (s : Session) : List Event → List Turn
  | [] | .interrupt :: _ => []
  | .line l :: events =>
      match s.pending.read l with
      | .leave => []
      | .unfinished pending => turns { s with pending } events
      | .entry text =>
          { lines := s.pending.lines ++ [l], modes := s.modes, shown := (handle s.modes text).2 } ::
            turns { modes := (handle s.modes text).1 } events

/-- How a session ends. -/
def ending (s : Session) : List Event → SessionEnd
  | [] => .done s.pending.lines
  | .interrupt :: events => .interrupt s.pending.lines events
  | .line l :: events =>
      match s.pending.read l with
      | .leave => .leave l events
      | .unfinished pending => ending { s with pending } events
      | .entry text => ending { modes := (handle s.modes text).1 } events

/-! ### Runs -/

/-- The session waits in the middle of an entry, or where one would begin. -/
def Waits (s : Session) : Prop :=
  Unfinished s.pending.lines

theorem waits_start (m : Modes) : Waits { modes := m } :=
  Unfinished.nil

/-- Induction over a run, line by line, with what a line makes of the lines before it. -/
theorem run_induction {motive : (s : Session) → List Event → s.Waits → Prop}
    (done : ∀ s h, motive s [] h)
    (interrupt : ∀ s events h, motive s (.interrupt :: events) h)
    (leave : ∀ s l events h, s.pending.lines = [] → isLeaving l = true →
      s.pending.read l = .leave → motive s (.line l :: events) h)
    (goOn : ∀ s l events h h', s.pending.read l = .unfinished ⟨s.pending.lines ++ [l]⟩ →
      motive { s with pending := ⟨s.pending.lines ++ [l]⟩ } events h' →
      motive s (.line l :: events) h)
    (entry : ∀ s l events h h', IsEntry (s.pending.lines ++ [l]) →
      s.pending.read l = .entry (entryText (s.pending.lines ++ [l])) →
      motive { modes := (handle s.modes (entryText (s.pending.lines ++ [l]))).1 } events h' →
      motive s (.line l :: events) h)
    (s : Session) (events : List Event) (h : s.Waits) : motive s events h := by
  induction events generalizing s with
  | nil => exact done s h
  | cons e events ih =>
      cases e with
      | interrupt => exact interrupt s events h
      | line l =>
          rcases s.pending.read_cases h l with ⟨hnil, hl, hread⟩ | ⟨hentry, hread⟩ | ⟨hopen, hread⟩
          · exact leave s l events h hnil hl hread
          · exact entry s l events h (waits_start _) hentry hread (ih _ (waits_start _))
          · exact goOn s l events h hopen hread (ih { s with pending := _ } hopen)

variable {s : Session} {events : List Event}

/-- The lines that are read are those of the turns and of the end, in their order. -/
theorem events_eq (h : s.Waits) : s.pending.lines.map .line ++ events =
    (s.turns events).flatMap (fun t => t.lines.map .line) ++ (s.ending events).events := by
  induction s, events, h using run_induction with
  | done s h => simp [turns, ending, SessionEnd.events]
  | interrupt s events h => rfl
  | leave s l events h hnil _ hread => simp [turns, ending, SessionEnd.events, hread, hnil]
  | goOn s l events h h' hread ih =>
      simp only [turns, ending, hread, ← ih]
      simp
  | entry s l events h h' _ hread ih =>
      simp only [turns, ending, hread, List.flatMap_cons, List.append_assoc, ← ih]
      simp

/-- Every turn is about an entry, and shows the answer to it. -/
theorem isEntry_of_mem (h : s.Waits) :
    ∀ t ∈ s.turns events, IsEntry t.lines ∧ t.shown = (handle t.modes t.text).2 := by
  induction s, events, h using run_induction with
  | done | interrupt => exact fun t ht => absurd ht List.not_mem_nil
  | leave s l events h _ _ hread => simp [turns, hread]
  | goOn s l events h h' hread ih => simpa only [turns, hread] using ih
  | entry s l events h h' hentry hread ih =>
      simp only [turns, hread]
      exact List.forall_mem_cons.2 ⟨⟨hentry, by rw [Turn.text]⟩, ih⟩

theorem isProper_ending (h : s.Waits) : (s.ending events).IsProper := by
  induction s, events, h using run_induction with
  | done s h => exact h
  | interrupt s events h => exact h
  | leave s l events h _ hl hread =>
      simp only [ending, hread]
      exact hl
  | goOn s l events h h' hread ih => simpa only [ending, hread] using ih
  | entry s l events h h' _ hread ih => simpa only [ending, hread] using ih

/-- The modes at a turn are those of the session, switched by the turns before it. -/
theorem modes_eq (h : s.Waits) {before after : List Turn} {t : Turn}
    (ht : s.turns events = before ++ t :: after) : t.modes = s.modes.after (before.map Turn.text) := by
  induction s, events, h using run_induction generalizing before with
  | done | interrupt => simp [turns] at ht
  | leave s l events h _ _ hread => simp [turns, hread] at ht
  | goOn s l events h h' hread ih =>
      simp only [turns, hread] at ht
      exact ih ht
  | entry s l events h h' _ hread ih =>
      simp only [turns, hread] at ht
      cases before with
      | nil =>
          obtain ⟨rfl, -⟩ := List.cons.inj ht
          rfl
      | cons u before =>
          obtain ⟨rfl, hrest⟩ := List.cons.inj ht
          rw [ih hrest, handle_fst, List.map_cons,
            Modes.after_cons s.modes _ (before.map Turn.text), Turn.text]

/-- What is written is a prompt for every line that is read, what is shown for every entry, and the
exit message. -/
theorem transcript_eq (h : s.Waits) : prompts s.pending.lines.length ++ s.transcript events =
    String.join ((s.turns events).map fun t => prompts t.lines.length ++ t.shown) ++
      (s.ending events).shown := by
  induction s, events, h using run_induction with
  | done s h | interrupt s events h =>
      show prompts _ ++ (s.pending.prompt ++ ("\n" ++ farewell)) = "" ++ (prompts _ ++ "\n" ++ farewell)
      rw [← prompts_append_prompt]
      simp [String.append_assoc]
  | leave s l events h hnil _ hread =>
      simp only [transcript, step, turns, ending, hread, Pending.prompt, hnil]
      rfl
  | goOn s l events h h' hread ih =>
      simp only [transcript, step, turns, ending, hread, ← ih]
      rw [String.append_empty, ← String.append_assoc, prompts_append_prompt, List.length_append]
      rfl
  | entry s l events h h' _ hread ih =>
      have hrest := String.empty_append.symm.trans ih
      simp only [transcript, step, turns, ending, hread, List.map_cons, String.join_cons]
      rw [hrest, ← String.append_assoc, ← String.append_assoc, ← String.append_assoc,
        prompts_append_prompt, List.length_append]
      rfl

end Session

/-- A session is its entries, one after the other.  The lines that are read are those of the entries
and then those of the end.  An entry is the shortest run of lines in which no more braces are opened
than closed, which is what reading from its first line on gives.  The modes at an entry are those of
the start, switched by the commands before it.  What is written is the banner, a prompt for every line
and the answer to every entry, and last the exit message. -/
theorem transcript_turns (m : Modes) (events : List Event) :
    let turns := Session.turns { modes := m } events
    let ending := Session.ending { modes := m } events
    events = turns.flatMap (fun t => t.lines.map .line) ++ ending.events ∧
    ending.IsProper ∧
    (∀ t ∈ turns, IsEntry t.lines ∧ t.IsAnswered ∧
      ∀ rest, readEntry {} (t.lines.map .line ++ rest) = (prompts t.lines.length, .entry t.text)) ∧
    (∀ before t after, turns = before ++ t :: after → t.modes = m.after (before.map Turn.text)) ∧
    transcript m events =
      banner ++ String.join (turns.map fun t => prompts t.lines.length ++ t.shown) ++ ending.shown := by
  intro turns ending
  have hwaits : Session.Waits { modes := m } := Session.waits_start m
  refine ⟨Session.events_eq hwaits, Session.isProper_ending hwaits, fun t ht => ?_,
    fun before t after ht => Session.modes_eq hwaits ht, ?_⟩
  · obtain ⟨hentry, hshown⟩ := Session.isEntry_of_mem hwaits t ht
    refine ⟨hentry, Turn.isAnswered hshown, fun rest => ?_⟩
    obtain ⟨hprompts, hresult⟩ := readEntry_of_isEntry .nil hentry.ne_nil hentry rest
    exact Prod.ext (String.empty_append.symm.trans hprompts) hresult
  · have htranscript : Session.transcript { modes := m } events = _ :=
      String.empty_append.symm.trans (Session.transcript_eq hwaits)
    rw [transcript, htranscript, String.append_assoc]

end FnLang.Repl
