/- # FnLang.Proofs.Lines — output that is read line by line.

A command writes a line for every statement and a line for every error, and who reads them can count
on that: no statement and no message has a line break in it, whatever characters stand in the source.

A statement has none because names, numerals and operators have none and the rest of its text is
fixed (`Node.Fits.oneLine`).  A message has none because a text that it takes over from a token is
quoted, and quoting names every line break (`Text.oneLine_quoted`); what else varies in it are the
names of kinds and the places of tokens (`Breaks.oneLine_message`, over all the ways in which reading
can break off).
-/
import FnLang.CommandLine.Command
import FnLang.Proofs.ErrorPosition
import FnLang.Proofs.Layout
import FnLang.Proofs.WellFormed

namespace FnLang

open Repl (outputLine)

/-! ## Texts without a line break -/

namespace Text

/-- The text has no line break. -/
def OneLine (s : String) : Prop :=
  '\n' ∉ s.toList

instance (s : String) : Decidable (OneLine s) :=
  inferInstanceAs (Decidable ('\n' ∉ s.toList))

@[simp] theorem oneLine_append {s t : String} : OneLine (s ++ t) ↔ OneLine s ∧ OneLine t := by
  rw [OneLine, String.toList_append, List.mem_append, not_or]
  rfl

theorem OneLine.append {s t : String} (hs : OneLine s) (ht : OneLine t) : OneLine (s ++ t) :=
  oneLine_append.2 ⟨hs, ht⟩

theorem oneLine_ofList {cs : List Char} : OneLine (String.ofList cs) ↔ '\n' ∉ cs := by
  rw [OneLine, String.toList_ofList]

theorem OneLine.intercalate {sep : String} {ts : List String} (hsep : OneLine sep)
    (h : ∀ t ∈ ts, OneLine t) : OneLine (sep.intercalate ts) := by
  induction ts with
  | nil => rw [String.intercalate_nil]; decide
  | cons t ts ih =>
      obtain ⟨ht, hts⟩ := List.forall_mem_cons.1 h
      cases ts with
      | nil => rwa [String.intercalate_singleton]
      | cons u us =>
          rw [String.intercalate_cons_cons]
          simp [ht, hsep, ih hts]

/-! ### Quoted texts -/

theorem newline_not_mem_hex (width n : Nat) : '\n' ∉ hex width n := by
  have hdigit : ∀ i : Fin 16, '\n' ≠ Nat.digitChar i := by decide
  induction width generalizing n with
  | zero => exact List.not_mem_nil
  | succ width ih =>
      rw [hex, List.mem_append, not_or, List.mem_singleton]
      exact ⟨ih _, hdigit ⟨n % 16, Nat.mod_lt _ (by decide)⟩⟩

theorem newline_not_mem_quotedChar {mark : Char} (hmark : mark ≠ '\n') (c : Char) :
    '\n' ∉ quotedChar mark c := by
  unfold quotedChar
  split
  · next hc =>
      have hne : '\n' ≠ c := by
        rcases hc with rfl | rfl
        · exact hmark.symm
        · decide
      simp [hne]
  split
  · decide
  split
  · decide
  split
  · decide
  split
  · next hc _ _ _ => simpa using fun h => hc h.symm
  · unfold codePointEscape
    split
    · simp [newline_not_mem_hex]
    split <;> simp [newline_not_mem_hex]

/-- A quoted text is on one line, whatever stands in it. -/
theorem oneLine_quoted (s : String) : OneLine (quoted s) := by
  have hmark : quotationMark s.toList ≠ '\n' := by
    unfold quotationMark
    split <;> decide
  rw [quoted, oneLine_ofList]
  simp only [List.cons_append, List.mem_cons, List.mem_append, List.mem_flatMap, List.not_mem_nil,
    or_false, not_or, not_exists, not_and]
  exact ⟨hmark.symm, fun c _ => newline_not_mem_quotedChar hmark c, hmark.symm⟩

theorem Numeral.oneLine_write (v : Int) : OneLine (Numeral.write v) := by
  have hdigits (n : Nat) : '\n' ∉ Nat.toDigits 10 n := fun h =>
    absurd (Nat.isDigit_of_mem_toDigits (by decide) (by decide) h) (by decide)
  cases v with
  | ofNat n =>
      rw [write, oneLine_ofList]
      exact hdigits n
  | negSucc n =>
      rw [write, oneLine_ofList, List.mem_cons, not_or]
      exact ⟨by decide, hdigits _⟩

/-! ### Lines -/

/-- The lines of a text: what stands before each line break, and what stands after the last one. -/
def lines (s : String) : List String :=
  (s.toList.splitOn '\n').map String.ofList

/-- Lines that are written one after the other are read again, and nothing stands after them. -/
theorem lines_join {ts : List String} (h : ∀ t ∈ ts, OneLine t) :
    lines (String.join (ts.map outputLine)) = ts ++ [""] := by
  induction ts with
  | nil => rfl
  | cons t ts ih =>
      obtain ⟨ht, hts⟩ := List.forall_mem_cons.1 h
      have hlist : (String.join ((t :: ts).map outputLine)).toList =
          t.toList ++ '\n' :: (String.join (ts.map outputLine)).toList := by
        rw [List.map_cons, String.join_cons, outputLine, String.toList_append, String.toList_append]
        simp
      rw [lines, hlist, List.splitOn_append_cons_self_of_not_mem ht, List.map_cons,
        String.ofList_toList]
      exact congrArg (t :: ·) (ih hts)

theorem count_join {ts : List String} (h : ∀ t ∈ ts, OneLine t) :
    (String.join (ts.map outputLine)).toList.count '\n' = ts.length := by
  induction ts with
  | nil => rfl
  | cons t ts ih =>
      obtain ⟨ht, hts⟩ := List.forall_mem_cons.1 h
      rw [List.map_cons, String.join_cons, outputLine, String.toList_append, String.toList_append,
        List.count_append, List.count_append, ih hts, List.count_eq_zero_of_not_mem ht]
      exact Nat.add_comm _ _

/-- To put line breaks between texts and one after the last is to end each of them with one. -/
theorem outputLine_intercalate {ts : List String} (h : ts ≠ []) :
    outputLine ("\n".intercalate ts) = String.join (ts.map outputLine) := by
  induction ts with
  | nil => exact absurd rfl h
  | cons t ts ih =>
      cases ts with
      | nil => rw [String.intercalate_singleton, List.map_singleton, String.join_cons]; simp
      | cons u us =>
          rw [String.intercalate_cons_cons, List.map_cons, String.join_cons, ← ih (by simp)]
          simp [outputLine, String.append_assoc]

end Text

open Text

/-! ## Trees -/

namespace Node

/-- The node has a text, and the text is on one line. -/
def OneLine (a : Node) : Prop :=
  ∃ t, a.render = .ok t ∧ Text.OneLine t

theorem IsName.oneLine {s : String} (h : IsName s) : Text.OneLine s := by
  obtain ⟨hword, -⟩ := h
  intro hmem
  cases hs : s.toList with
  | nil => rw [hs] at hmem; exact absurd hmem List.not_mem_nil
  | cons c cs =>
      rw [hs, Lexeme.isWord, Bool.and_eq_true] at hword
      rw [hs] at hmem
      have hblank : isBlank '\n' = false := by
        rcases List.mem_cons.1 hmem with rfl | hmem
        · exact Lexeme.isBlank_of_isWordStart hword.1
        · exact Lexeme.isBlank_of_isWordPart (List.all_eq_true.1 hword.2 _ hmem)
      exact absurd hblank (by decide)

theorem exists_renderAll {as : List Node} (h : ∀ a ∈ as, a.OneLine) :
    ∃ ts, renderAll as = .ok ts ∧ ∀ t ∈ ts, Text.OneLine t := by
  induction as with
  | nil => exact ⟨[], rfl, by simp⟩
  | cons a as ih =>
      obtain ⟨⟨t, hrender, ht⟩, has⟩ := List.forall_mem_cons.1 h
      obtain ⟨ts, hrenders, hts⟩ := ih has
      exact ⟨t :: ts, renderAll_cons hrender hrenders, List.forall_mem_cons.2 ⟨ht, hts⟩⟩

theorem exists_renderStatements {ss : List Node} (h : ∀ s ∈ ss, s.OneLine) :
    ∃ ts, renderStatements ss = .ok ts ∧
      List.Forall₂ (fun s t => s.renderTerminated = .ok t) ss ts ∧ ∀ t ∈ ts, Text.OneLine t := by
  induction ss with
  | nil => exact ⟨[], rfl, .nil, by simp⟩
  | cons s ss ih =>
      obtain ⟨⟨t, hrender, ht⟩, hss⟩ := List.forall_mem_cons.1 h
      obtain ⟨ts, hrenders, hall, hts⟩ := ih hss
      have hend : Text.OneLine s.terminator := by
        unfold terminator
        split <;> decide
      refine ⟨(t ++ s.terminator) :: ts, renderStatements_cons hrender hrenders,
        .cons (bind_eq_ok hrender rfl) hall, List.forall_mem_cons.2 ⟨?_, hts⟩⟩
      exact oneLine_append.2 ⟨ht, hend⟩

/-- A node that fits its place is on one line, unless it is a program: by induction on the node. -/
theorem Fits.oneLine {r : Role} {a : Node} (h : Fits r a) (hr : r ≠ .program) : a.OneLine := by
  induction h with
  | identifier hs | parameter hs => exact ⟨_, rfl, hs.oneLine⟩
  | integer => exact ⟨_, rfl, Numeral.oneLine_write _⟩
  | @boolean b => exact ⟨_, rfl, by cases b <;> decide⟩
  | function _ _ ihps ihb =>
      obtain ⟨ts, hts, hlines⟩ := exists_renderAll fun p hp => ihps p hp (by decide)
      obtain ⟨t, ht, hline⟩ := ihb (by decide)
      have hlist : Text.OneLine (", ".intercalate ts) := .intercalate (by decide) hlines
      exact ⟨_, render_function hts ht, by simp +decide [hlist, hline]⟩
  | @unary op _ hop _ ih =>
      obtain ⟨t, ht, hline⟩ := ih (by decide)
      have hsign : ∀ s ∈ ["!", "-"], Text.OneLine s := by decide
      exact ⟨_, render_unary op ht, by simp +decide [hsign op hop, hline]⟩
  | @binary op _ _ hop _ _ iha ihb =>
      obtain ⟨s, hs, hleft⟩ := iha (by decide)
      obtain ⟨t, ht, hright⟩ := ihb (by decide)
      have hsign : ∀ s ∈ ["+", "-", "*", "/", "==", "!=", "<", ">"], Text.OneLine s := by decide
      exact ⟨_, render_binary op hs ht, by simp +decide [hsign op hop, hleft, hright]⟩
  | conditional _ _ ihc iha =>
      obtain ⟨s, hs, hcondition⟩ := ihc (by decide)
      obtain ⟨t, ht, hbody⟩ := iha (by decide)
      exact ⟨_, render_conditional hs ht, by simp +decide [hcondition, hbody]⟩
  | alternative _ _ _ ihc iha ihb =>
      obtain ⟨s, hs, hcondition⟩ := ihc (by decide)
      obtain ⟨t, ht, hbody⟩ := iha (by decide)
      obtain ⟨u, hu, hother⟩ := ihb (by decide)
      exact ⟨_, render_alternative hs ht hu, by simp +decide [hcondition, hbody, hother]⟩
  | call _ _ ihf ihas =>
      obtain ⟨ts, hts, hlines⟩ := exists_renderAll fun a ha => ihas a ha (by decide)
      obtain ⟨t, ht, hline⟩ := ihf (by decide)
      have hlist : Text.OneLine (", ".intercalate ts) := .intercalate (by decide) hlines
      exact ⟨_, render_call hts ht, by simp +decide [hlist, hline]⟩
  | @block ss _ ih =>
      obtain ⟨ts, hts, -, hlines⟩ := exists_renderStatements fun s hs => ih s hs (by decide)
      have hlist : Text.OneLine (" ".intercalate ts) := .intercalate (by decide) hlines
      cases ss with
      | nil => exact ⟨_, rfl, by decide⟩
      | cons s ss => exact ⟨_, render_block hts, by simp +decide [hlist]⟩
  | binding hs _ ih =>
      obtain ⟨t, ht, hline⟩ := ih (by decide)
      exact ⟨_, render_binding rfl ht, by simp +decide [hs.oneLine, hline]⟩
  | returning _ ih =>
      obtain ⟨t, ht, hline⟩ := ih (by decide)
      exact ⟨_, render_returning ht, by simp +decide [hline]⟩
  | statement _ ih => exact ih (by decide)
  | program => exact absurd rfl hr

end Node

/-! ## Messages -/

theorem Kind.oneLine_name {k : Kind} (h : k.isKnown = true) : OneLine k.name := by
  have hall : ∀ k ∈ Kind.all, OneLine k.name := by decide +kernel
  exact hall k (List.contains_iff_mem.1 h)

theorem Wanted.oneLine_operand (op : String) : OneLine (Wanted.operand op).message :=
  .append (by simp [OneLine]) (oneLine_quoted op)

theorem Wanted.oneLine_phrase {w : Wanted}
    (h : w ∈ [letValue, returnValue, groupBody, condition, firstArgument, nextArgument]) :
    OneLine w.message := by
  have hall : ∀ w ∈ [letValue, returnValue, groupBody, condition, firstArgument, nextArgument],
      OneLine w.message := by
    decide +kernel
  exact hall w h

namespace Cause

theorem oneLine_unexpected {k found : Kind} (hk : OneLine k.name) (hfound : OneLine found.name) :
    OneLine (unexpected k found).message := by
  refine .append (.append (by simp [OneLine]) hk) ?_
  split
  · simp [OneLine]
  · exact .append (.append (by simp [OneLine]) hfound) (by simp [OneLine])

theorem oneLine_missing {w : Wanted} (hw : OneLine w.message) : OneLine (missing w).message :=
  .append (.append (by simp [OneLine]) hw) (by simp [OneLine])

theorem oneLine_unclosedGroup {found : Kind} (line column : Int) (hfound : OneLine found.name) :
    OneLine (unclosedGroup line column found).message :=
  .append (.append (.append (.append (.append (by simp [OneLine]) (Numeral.oneLine_write _))
    (by simp [OneLine])) (Numeral.oneLine_write _)) (by simp [OneLine])) hfound

theorem oneLine_noExpression {k : Kind} (text : String) (hk : OneLine k.name) :
    OneLine (noExpression k text).message :=
  .append (.append (.append (by simp [OneLine]) hk) (by simp [OneLine])) (oneLine_quoted text)

theorem oneLine_malformedInteger (text : String) : OneLine (malformedInteger text).message :=
  .append (.append (by simp [OneLine]) (oneLine_quoted text)) (by simp [OneLine])

theorem oneLine_integerOutOfRange (text : String) : OneLine (integerOutOfRange text).message :=
  .append (.append (by simp [OneLine]) (oneLine_quoted text)) (by simp [OneLine])

end Cause

/-- An error is told on one line if its cause is: the place is told by numbers. -/
theorem ParseError.oneLine_text {err : ParseError} (h : OneLine err.cause.message) :
    OneLine err.text := by
  refine .append (.append (by simp [OneLine]) h) ?_
  split
  · decide
  split
  · decide
  · exact .append (.append (.append (.append (by simp [OneLine]) (Numeral.oneLine_write _))
      (by simp [OneLine])) (Numeral.oneLine_write _)) (by simp [OneLine])

/-- What the error for a goal quotes of the goal itself. -/
def Goal.OneLine : Goal → Prop
  | .token k => Text.OneLine k.name
  | .next _ w | .item _ w => Text.OneLine w.message
  | _ => True

/-- An error is told on one line if the name of the kind that was found is on one: by induction on how
reading broke off. -/
theorem Breaks.oneLine_message {n : Nat} {g : Goal} {x : List Token} {h : Halt}
    (hb : Breaks n g x h) (hg : g.OneLine) (hk : OneLine h.token.kind.name) :
    OneLine h.error.cause.message := by
  induction hb with
  | token => exact Cause.oneLine_unexpected hg hk
  | missing => exact Cause.oneLine_missing hg
  | nested => exact (show OneLine "expression nested too deeply" by simp [OneLine])
  | unfinished =>
      exact (show OneLine "expected \x27\x7d\x27 to close block, got end of input" by simp [OneLine])
  | noOperand => exact Cause.oneLine_noExpression _ hk
  | malformed => exact Cause.oneLine_malformedInteger _
  | outOfRange => exact Cause.oneLine_integerOutOfRange _
  | unclosed => exact Cause.oneLine_unclosedGroup _ _ hk
  -- an operator is quoted
  | unary _ _ ih | right _ _ _ _ ih => exact ih (Wanted.oneLine_operand _) hk
  -- the wanted item is named by the goal
  | argument _ ih => exact ih hg hk
  -- a kind of the language
  | parameter _ ih | noBody _ ih | noCondition _ _ ih | openCondition _ _ _ _ _ ih
  | noParameters _ _ ih | openItems _ _ _ _ ih | noName _ _ ih | noAssign _ _ _ ih =>
      exact ih (Kind.oneLine_name (by decide)) hk
  -- a fixed phrase
  | group _ _ ih | condition _ _ _ ih | firstItem _ _ _ ih | nextItem _ _ _ ih
  | binding _ _ _ _ ih | returning _ _ ih => exact ih (Wanted.oneLine_phrase (by decide)) hk
  -- nothing of the goal
  | next _ ih | body _ ih | consequence _ _ _ _ _ ih | alternative _ _ _ _ _ _ _ ih
  | parameters _ _ ih | function _ _ _ ih | arguments _ _ _ ih | block _ _ ih | statement _ _ ih
  | laterStatement _ _ _ ih | bare _ _ _ ih => exact ih trivial hk

namespace Cursor

variable {c : Cursor}

/-- The token that reading has broken off at is one of those to come, or the end of input. -/
theorem mem_of_reached {a : Attempt} {n : Nat} {g : Goal} {x : List Token} {h : Halt} {f : Cursor}
    (hdepth : c.depth = 0) (ha : a ∈ c.attempts) (hb : Breaks n g x h)
    (hr : h.Reached a.start x f) : h.token ∈ c.upcoming ++ [c.final] := by
  obtain ⟨htokens, htoken⟩ := hb.tokens_eq hr
  rw [List.mem_append, List.mem_singleton]
  cases hleft : h.error.left f with
  | nil =>
      rw [hleft, final_start_of_mem hdepth ha] at htoken
      exact .inr htoken.symm
  | cons t rest =>
      rw [hleft] at htokens htoken
      obtain rfl : t = h.token := htoken
      refine .inl ((start_suffix hdepth ha).subset ?_)
      rw [htokens]
      simp

/-- An error of a run is told on one line if the names of the kinds in its input are on one. -/
theorem oneLine_of_mem_errors {err : ParseError} (hdepth : c.depth = 0)
    (h : ∀ t ∈ c.upcoming ++ [c.final], OneLine t.kind.name) (herr : err ∈ c.parse.errors) :
    OneLine err.text := by
  obtain ⟨a, ha, d, hfails⟩ := exists_failsAt herr
  have houtcome := outcome_of_failsAt ha hfails
  obtain ⟨hstart, heof⟩ := depth_start hdepth ha
  rw [eq_attempt_of_mem ha] at houtcome
  rcases (attempt_cases heof hstart).2 with ⟨x, s, us, -, -, -, hok⟩ | ⟨x, halt, f, hb, hr, -, hbad, -⟩
  · rw [hok] at houtcome
    exact absurd houtcome (by simp)
  · rw [hbad] at houtcome
    obtain rfl := Except.error.inj houtcome
    exact ParseError.oneLine_text (hb.oneLine_message trivial (h _ (mem_of_reached hdepth ha hb hr)))

end Cursor

/-! ## What is shown of a text -/

theorem LexicalClass.isKnown {k : Kind} {s : List Char} (h : LexicalClass k s) :
    k.isKnown = true := by
  have hwords : ∀ e ∈ Kind.reserved, e.2.isKnown = true := by decide
  have hsymbols : ∀ e ∈ Kind.symbols, e.2.isKnown = true := by decide
  cases h with
  | reserved hmem => exact hwords _ hmem
  | symbol hmem => exact hsymbols _ hmem
  | _ => decide

theorem Input.isKnown_nextToken (i : Input) : i.nextToken.1.kind.isKnown = true := by
  unfold nextToken
  dsimp only
  split
  · exact (by decide : Kind.eof.isKnown = true)
  · next c cs _ =>
      show (Lexeme.first c cs).kind.isKnown = true
      rcases Lexeme.longest_first c cs with ⟨hclass, -⟩ | ⟨hillegal, -⟩
      · exact hclass.isKnown
      · rw [hillegal]
        decide

/-- Every statement of a text is on one line. -/
theorem oneLine_of_mem_statements {source : String} {s : Node}
    (hs : s ∈ (parseText source).statements) : s.OneLine := by
  have hspelt : ∀ t ∈ (Cursor.start (.ofText source)).upcoming, t.Spelt := by
    intro t ht
    rw [Cursor.upcoming_start] at ht
    exact TokenSource.spelt_of_mem_pending ht
  have hfits : (parseText source).program.Fits .program := Cursor.fits_parse rfl hspelt
  cases hfits with
  | program hall => exact (hall s hs).oneLine (by decide)

/-- Every error of a text is told on one line. -/
theorem oneLine_of_mem_errors {source : String} {err : ParseError}
    (herr : err ∈ (parseText source).errors) : OneLine err.text := by
  refine Cursor.oneLine_of_mem_errors (c := .start (.ofText source)) rfl (fun t ht => ?_) herr
  rw [Cursor.upcoming_start, Cursor.final_start, List.mem_append, List.mem_singleton] at ht
  rcases ht with ht | rfl
  · exact Kind.oneLine_name (TokenSource.forall_mem_pending
      (P := fun t => t.kind.isKnown = true) Input.isKnown_nextToken _ t ht)
  · rw [TokenSource.kind_final]
    decide

/-- The statements of a text have texts, each on one line. -/
theorem exists_texts (source : String) :
    ∃ texts, Node.renderStatements (parseText source).statements = .ok texts ∧
      List.Forall₂ (fun s t => s.renderTerminated = .ok t) (parseText source).statements texts ∧
      ∀ t ∈ texts, OneLine t :=
  Node.exists_renderStatements fun _ => oneLine_of_mem_statements

namespace CommandLine

theorem View.output_program (source : String) {texts : List String}
    (h : Node.renderStatements (parseText source).statements = .ok texts)
    (hlength : texts.length = (parseText source).statements.length) :
    (View.program.report source).output = String.join (texts.map outputLine) := by
  have hprogram : (parseText source).program.text = "\n".intercalate texts := by
    rw [Node.text, ParseResult.program, Node.render_program h]
  show (if (parseText source).statements.isEmpty then "" else
    outputLine (parseText source).program.text) = _
  rw [hprogram]
  by_cases htexts : texts = []
  · rw [htexts, List.length_nil, eq_comm, List.length_eq_zero_iff] at hlength
    rw [hlength, htexts]
    rfl
  · have hsome : (parseText source).statements ≠ [] := by
      rw [← List.length_pos_iff, ← hlength]
      exact List.length_pos_iff.2 htexts
    rw [if_neg (by simpa using hsome), outputLine_intercalate htexts]

theorem View.errors_program (source : String) :
    (View.program.report source).errors = String.join
      (((parseText source).errors.map fun err => "[error] >>> " ++ err.text).map outputLine) := by
  show String.join ((parseText source).errors.map fun err => Repl.errorLine err.text) = _
  rw [List.map_map]
  rfl

/-- To show the program of a text writes a line for each of its statements, the text of the statement
and what ends it, and apart from these a line for each of its errors.  The status says whether there
was an error. -/
theorem report_lines (read : String → Except FileFault (List Nat)) (events : List Repl.Event)
    (source : String) :
    let result := parseText source
    let report := (Command.text .program source).report read events
    ∃ texts, List.Forall₂ (fun s t => s.renderTerminated = .ok t) result.statements texts ∧
      report.output.toList.count '\n' = result.statements.length ∧
      lines report.output = texts ++ [""] ∧
      (report.output = "" ↔ result.statements = []) ∧
      report.errors.toList.count '\n' = result.errors.length ∧
      lines report.errors = result.errors.map (fun err => "[error] >>> " ++ err.text) ++ [""] ∧
      report.status = some (if result.errors = [] then 0 else 1) := by
  intro result report
  obtain ⟨texts, hrender, hall, htexts⟩ := exists_texts source
  have hlength : texts.length = result.statements.length := hall.length_eq.symm
  have houtput : report.output = String.join (texts.map outputLine) :=
    View.output_program source hrender hlength
  have herrors : report.errors = String.join
      ((result.errors.map fun err => "[error] >>> " ++ err.text).map outputLine) :=
    View.errors_program source
  have hmessages : ∀ t ∈ result.errors.map fun err => "[error] >>> " ++ err.text, OneLine t := by
    intro t ht
    obtain ⟨err, herr, rfl⟩ := List.mem_map.1 ht
    exact .append (by simp [OneLine]) (oneLine_of_mem_errors herr)
  refine ⟨texts, hall, ?_, ?_, ?_, ?_, ?_, ?_⟩
  · rw [houtput, count_join htexts, hlength]
  · rw [houtput, lines_join htexts]
  · constructor
    · intro hempty
      have hcount : texts.length = 0 := by
        rw [← count_join htexts, ← houtput, hempty]
        rfl
      rwa [hlength, List.length_eq_zero_iff] at hcount
    · intro hnone
      rw [hnone, List.length_nil, List.length_eq_zero_iff] at hlength
      rw [houtput, hlength]
      rfl
  · rw [herrors, count_join hmessages, List.length_map]
  · rw [herrors, lines_join hmessages]
  · show some (if result.ok then 0 else 1) = _
    rw [ParseResult.ok]
    simp only [List.isEmpty_iff]

-- a line break inside a string stays quoted in the error for it
example : (View.program.report "\"a\nb\"").errors =
    "[error] >>> ParseError: no prefix parse function for STRING \x27a\\nb\x27 (line 1, col 1)\n" := by
  decide +kernel

end CommandLine

end FnLang
