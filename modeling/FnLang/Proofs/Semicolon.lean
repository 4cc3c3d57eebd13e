/- # FnLang.Proofs.Semicolon — a semicolon outside every block separates programs.

`Cursor.exists_outcomes_append` asks that the tokens in front be sealed.  Two kinds of tokens that end
with a semicolon are: those without braces, however malformed, and those that are parsed without an
error, since statements close the blocks they open.  What is recorded for such tokens in front of
others is what is recorded for them alone, with its errors and the tokens these point at, and what
comes after them is parsed as if it stood alone (`parseTokens_append_of_semicolon`).

Without braces there is more to say about errors.  Skipping ends on the first semicolon
(`Skip.rest_of_semicolon`), so each semicolon is the end of one error at most.
-/
import FnLang.Proofs.Composition

namespace FnLang

open Parse

/-! ## Tokens without braces -/

/-- Tokens without braces are balanced. -/
theorem Balanced.of_no_braces {ts : List Token}
    (h : ∀ t ∈ ts, t.kind ≠ .lbrace ∧ t.kind ≠ .rbrace) : Balanced ts := by
  induction ts with
  | nil => exact .nil
  | cons t ts ih =>
      obtain ⟨ht, hts⟩ := List.forall_mem_cons.1 h
      exact .cons ht.1 ht.2 (ih hts)

/-- With no block open, skipping goes over what is neither a brace nor a semicolon. -/
theorem Skip.rest_of_semicolon {body : List Token} {semi : Token}
    (h : ∀ t ∈ body, t.kind ∉ [Kind.lbrace, .rbrace, .semicolon]) (hs : semi.kind = .semicolon)
    (rs : List Token) : Skip.rest 0 (body ++ semi :: rs) = rs := by
  induction body with
  | nil =>
      apply rest_of_stop
      rw [hs]
      rfl
  | cons t ts ih =>
      obtain ⟨ht, hts⟩ := List.forall_mem_cons.1 h
      simp only [List.mem_cons, List.not_mem_nil, or_false, not_or] at ht
      rw [List.cons_append, rest_of_goOn (at_of_ne ht.1 ht.2.1 fun _ => ht.2.2)]
      exact ih hts

/-- Tokens without braces that end with their only semicolon. -/
structure Flat (ts : List Token) : Prop where
  listed : ∀ t ∈ ts, t.kind ≠ .eof
  no_braces : ∀ t ∈ ts, t.kind ≠ .lbrace ∧ t.kind ≠ .rbrace
  ends : ∀ us t vs, ts = us ++ t :: vs → (t.kind = .semicolon ↔ vs = [])

namespace Flat

variable {ts us vs : List Token}

theorem right (h : Flat (us ++ vs)) : Flat vs := by
  refine ⟨fun t ht => h.listed t (List.mem_append_right us ht),
    fun t ht => h.no_braces t (List.mem_append_right us ht), fun ws t xs hvs => ?_⟩
  exact h.ends (us ++ ws) t xs (by rw [hvs, List.append_assoc])

theorem exists_semicolon (h : Flat ts) (hts : ts ≠ []) :
    ∃ body semi, ts = body ++ [semi] ∧ semi.kind = .semicolon ∧
      ∀ t ∈ body, t.kind ∉ [Kind.lbrace, .rbrace, .semicolon] := by
  obtain ⟨body, semi, heq⟩ := (List.eq_nil_or_concat ts).resolve_left hts
  rw [List.concat_eq_append] at heq
  refine ⟨body, semi, heq, (h.ends body semi [] heq).2 rfl, fun t ht => ?_⟩
  have hbraces := h.no_braces t (by rw [heq]; exact List.mem_append_left _ ht)
  have hsemi : t.kind ≠ .semicolon := by
    intro hk
    obtain ⟨ws, xs, rfl⟩ := List.append_of_mem ht
    have hnil := (h.ends ws t (xs ++ [semi]) (by rw [heq, List.append_assoc]; rfl)).1 hk
    simp at hnil
  simp [hbraces.1, hbraces.2, hsemi]

/-- There is no second error: the first one is skipped up to the semicolon, which is the end. -/
theorem length_errors_le (h : Flat ts) : (parseTokens ts).errors.length ≤ 1 := by
  induction hk : ts.length using Nat.strongRecOn generalizing ts with
  | _ k ih =>
    cases ts with
    | nil =>
        rw [ParseResult.errors, parseTokens_nil]
        exact Nat.zero_le 1
    | cons t ts =>
    rcases exists_statement h.listed nestingLimit with
      ⟨x, s, us, rest, heq, hs, hx⟩ | ⟨x, j, us, vs, heq, hb, hj⟩
    · rw [heq] at h hk ⊢
      have hless : rest.length < k := by
        have hpos := List.length_pos_iff.2 (hs.ne_nil (by simp))
        rw [List.length_append] at hk
        omega
      have hrest := ih rest.length hless h.right rfl
      rw [ParseResult.errors, parseTokens_of_derives h.listed hs hx]
      exact hrest
    · rw [heq] at h ⊢
      -- no block is open, as there is none
      have htaken : Takes j.Ended j.depth x := hb.taken
      have hx : height x = 0 := by
        refine (Balanced.of_no_braces fun u hu => h.no_braces u ?_).height_eq
        cases hj with
        | on => exact List.mem_append_left _ hu
        | before _ hx =>
            rw [List.append_cons, ← hx]
            exact List.mem_append_left _ hu
      have hdepth : j.depth = 0 := by
        have := htaken.fits.2
        omega
      obtain ⟨body, semi, rfl, hsemi, hbody⟩ :=
        h.right.exists_semicolon (show vs ≠ [] by cases hj <;> simp)
      have hnil := Skip.rest_of_semicolon hbody hsemi []
      rw [ParseResult.errors, parseTokens_of_breaks h.listed hb hj, hdepth, hnil, parseTokens_nil]
      exact Nat.le_refl 1

end Flat

/-! ## Programs one after the other -/

/-- Tokens that end with a semicolon are sealed if they have no braces, and if they have no error. -/
theorem Sealed.of_semicolon {xs : List Token} (h : ∀ t ∈ xs, t.kind ≠ .eof)
    (hends : xs.getLast?.map Token.kind = some .semicolon)
    (hxs : (∀ t ∈ xs, t.kind ≠ .lbrace ∧ t.kind ≠ .rbrace) ∨ (parseTokens xs).errors = []) :
    Sealed xs := by
  have hlast : ∀ us t, xs = us ++ [t] → t.kind = .semicolon := by
    intro us t hus
    rw [hus, List.getLast?_append] at hends
    exact Option.some.inj hends
  rcases hxs with hbraces | herrors
  · exact .of_balanced (.of_no_braces hbraces) hlast
  · have hss := Cursor.outcomes_eq_iff.1 (ParseResult.outcomes_eq_of_errors_eq_nil herrors)
    rw [upcoming_start_ofList h] at hss
    exact .of_balanced hss.balanced hlast

/-- A program that ends with a semicolon, and has no braces or no errors, in front of any other: the
statements and the errors are those of the one followed by those of the other.  If the one has no
braces and a single semicolon, it has at most one error. -/
theorem parseTokens_append_of_semicolon {xs : List Token} (h : ∀ t ∈ xs, t.kind ≠ .eof)
    (hends : xs.getLast?.map Token.kind = some .semicolon)
    (hxs : (∀ t ∈ xs, t.kind ≠ .lbrace ∧ t.kind ≠ .rbrace) ∨ (parseTokens xs).errors = [])
    (rs : List Token) :
    (parseTokens (xs ++ rs)).statements =
        (parseTokens xs).statements ++ (parseTokens rs).statements ∧
      (parseTokens (xs ++ rs)).errors = (parseTokens xs).errors ++ (parseTokens rs).errors ∧
      ((∀ t ∈ xs, t.kind ≠ .lbrace ∧ t.kind ≠ .rbrace) → xs.countP (·.kind = .semicolon) = 1 →
        (parseTokens xs).errors.length ≤ 1) := by
  have happend := parseTokens_append h (.of_semicolon h hends hxs) rs nestingLimit
  refine ⟨?_, ?_, fun hbraces hone => ?_⟩
  · simp only [ParseResult.statements, happend, List.filterMap_append]
  · simp only [ParseResult.errors, happend, List.filterMap_append]
  · refine Flat.length_errors_le ⟨h, hbraces, fun us t vs heq => ⟨fun ht => ?_, ?_⟩⟩
    · -- a semicolon before the last token would be a second one
      obtain ⟨semi, hlast, hsemi⟩ := Option.map_eq_some_iff.1 hends
      rcases List.eq_nil_or_concat vs with hvs | ⟨ws, z, rfl⟩
      · exact hvs
      · rw [List.concat_eq_append, ← List.cons_append, ← List.append_assoc] at heq
        rw [heq, List.getLast?_append] at hlast
        obtain rfl : z = semi := Option.some.inj hlast
        rw [heq, List.countP_append, List.countP_append, List.countP_cons, List.countP_singleton] at hone
        simp only [ht, hsemi, decide_true, if_true] at hone
        omega
    · rintro rfl
      rw [heq, List.getLast?_append] at hends
      exact Option.some.inj hends

/-- `let 1 + ;` has no braces, and is one error; `fn () {};` has braces, and no error.  A closing brace
comes after either, and a name after the end of input. -/
theorem parseTokens_append_of_semicolon_examples :
    let broken : List Token := [⟨.letWord, "let", 0, 0⟩, ⟨.int, "1", 0, 0⟩, ⟨.plus, "+", 0, 0⟩,
      ⟨.semicolon, ";", 0, 0⟩]
    let blocks : List Token := [⟨.fnWord, "fn", 0, 0⟩, ⟨.lparen, "(", 0, 0⟩, ⟨.rparen, ")", 0, 0⟩,
      ⟨.lbrace, "\x7b", 0, 0⟩, ⟨.rbrace, "\x7d", 0, 0⟩, ⟨.semicolon, ";", 0, 0⟩]
    let rest : List Token := [⟨.rbrace, "\x7d", 0, 0⟩, ⟨.ident, "x", 0, 0⟩, ⟨.eof, "", 0, 0⟩,
      ⟨.ident, "y", 0, 0⟩]
    (parseTokens (broken ++ rest)).statements = [.expression (.identifier "x")] ∧
      (parseTokens (broken ++ rest)).errors.length = 2 ∧ (parseTokens broken).errors.length ≤ 1 ∧
      (parseTokens (blocks ++ rest)).statements =
        [.expression (.function [] (.block [])), .expression (.identifier "x")] ∧
      (parseTokens (blocks ++ rest)).errors.length = 1 := by
  intro broken blocks rest
  have hbroken : ∀ t ∈ broken, t.kind ≠ .eof := by decide
  have hblocks : ∀ t ∈ blocks, t.kind ≠ .eof := by decide
  obtain ⟨hs, he, hle⟩ := parseTokens_append_of_semicolon hbroken rfl (.inl (by decide)) rest
  obtain ⟨hs', he', -⟩ := parseTokens_append_of_semicolon hblocks rfl (.inr (by decide +kernel)) rest
  rw [hs, he, hs', he']
  refine ⟨by decide +kernel, by decide +kernel, hle (by decide) rfl, ?_⟩
  decide +kernel

end FnLang
