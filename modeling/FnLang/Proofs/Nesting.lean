/- # FnLang.Proofs.Nesting — expressions nested too deeply, and deeply enough.

A parenthesis or an operator in front of an operand puts the rest of the expression one level deeper,
so a run of them nests as deeply as it is long.  A run no shorter than the limit on nesting breaks
off inside the run (`Breaks.of_openings`), before any token after it is looked at: whatever else is
wrong with the statement, that is its error.  There is no brace in front of its semicolon, so skipping
ends there and what follows is parsed as if it stood alone.

A run shorter than the limit is read as a whole once its parentheses are closed
(`Derives.of_openings`).  Parentheses leave nothing in the tree.

None of this depends on what the limit is.  What is said of runs of a thousand openings and of a
hundred and twenty holds for every limit between the two (`openings_contained`), the limit of the
parser among them.
-/
import FnLang.Proofs.Semicolon

namespace FnLang

/-- The kinds that put what comes after them one level deeper, without a brace. -/
def Kind.openings : List Kind :=
  [lparen, bang, minus]

theorem Kind.not_mem_of_mem_openings {k : Kind} (h : k ∈ openings) :
    k ∉ [letWord, returnWord, semicolon, lbrace, rbrace, eof] := by
  revert k
  decide

variable {ws xs closings : List Token} {t name semi : Token} {limit : Nat}

/-! ## Beyond the limit -/

/-- To read a run of openings as long as the limit breaks off on the token after it. -/
theorem Breaks.of_openings (hws : ∀ w ∈ ws, w.kind ∈ Kind.openings) (l : Level) :
    Breaks ws.length (.expression l) ws (.on t .nestedTooDeeply (some t)) := by
  induction ws generalizing l with
  | nil => exact .nested
  | cons w ws ih =>
      obtain ⟨hw, hws'⟩ := List.forall_mem_cons.1 hws
      rcases List.mem_cons.1 hw with hlparen | hunary
      · exact .group hlparen (.next (ih hws' _))
      · exact .unary hunary (.next (ih hws' _))

/-- No statement but an expression begins with an opening. -/
theorem Breaks.statement_of_openings (hws : ∀ w ∈ ws, w.kind ∈ Kind.openings) (hne : ws ≠ []) :
    Breaks ws.length .statement ws (.on t .nestedTooDeeply (some t)) := by
  have hfirst : ((Halt.on t .nestedTooDeeply (some t)).first ws).kind ∈ Kind.openings := by
    cases ws with
    | nil => exact absurd rfl hne
    | cons w ws => exact hws w (by simp)
  have hplain := Kind.not_mem_of_mem_openings hfirst
  refine .bare (fun h => ?_) (fun h => ?_) (.of_openings hws _)
  · rw [h] at hplain
    exact absurd hplain (by decide)
  · rw [h] at hplain
    exact absurd hplain (by decide)

/-- Without a brace in front of its semicolon, a statement that breaks off on one of its tokens is one
error, and the tokens after the semicolon are parsed as if they stood alone. -/
theorem parseTokens_of_breaks_on {us vs : List Token} {h : Halt}
    (hplain : ∀ u ∈ us ++ vs, u.kind ∉ [Kind.semicolon, .lbrace, .rbrace, .eof])
    (hsemi : semi.kind = .semicolon) (hb : Breaks limit .statement us h)
    (honto : h.onto = true) (hdepth : h.depth = 0) (htoken : (vs ++ [semi]).head? = some h.token)
    (rs : List Token) :
    (parseTokens (us ++ vs ++ semi :: rs) limit).outcomes =
      .error h.error :: (parseTokens rs limit).outcomes := by
  have hlisted : ∀ u ∈ us ++ vs ++ [semi], u.kind ≠ .eof := by
    refine List.forall_mem_append.2 ⟨fun u hu heof => hplain u hu (by simp [heof]), ?_⟩
    simp [hsemi]
  have hbraces : ∀ u ∈ us ++ vs ++ [semi], u.kind ≠ .lbrace ∧ u.kind ≠ .rbrace := by
    refine List.forall_mem_append.2 ⟨fun u hu => ?_, by simp [hsemi]⟩
    exact ⟨fun hk => hplain u hu (by simp [hk]), fun hk => hplain u hu (by simp [hk])⟩
  have hstands : h.Stands Token.ending us us (vs ++ [semi]) := by
    obtain ⟨rest, hrest⟩ := List.head?_eq_some_iff.1 htoken
    rw [hrest]
    exact .on honto
  have hskip : Skip.rest 0 (vs ++ [semi]) = [] := by
    refine Skip.rest_of_semicolon (fun v hv hmem => ?_) hsemi []
    have hsub : [Kind.lbrace, .rbrace, .semicolon] ⊆ [.semicolon, .lbrace, .rbrace, .eof] := by decide
    exact hplain v (List.mem_append_right us hv) (hsub hmem)
  have halone : (parseTokens (us ++ vs ++ [semi]) limit).outcomes = [.error h.error] := by
    rw [List.append_assoc] at hlisted ⊢
    rw [parseTokens_of_breaks hlisted hb hstands, hdepth, hskip, parseTokens_nil]
  have hsealed : Sealed (us ++ vs ++ [semi]) :=
    .of_semicolon hlisted (by simp [hsemi]) (.inl hbraces)
  rw [List.append_cons, parseTokens_append hlisted hsealed rs, halone]
  rfl

/-- A statement that begins with openings as long as the limit is one error, up to its semicolon.  The
error points at the token after as many openings as the limit allows. -/
theorem parseTokens_of_openings (hws : ∀ w ∈ ws, w.kind ∈ Kind.openings) (hpos : 0 < limit)
    (hlimit : limit ≤ ws.length)
    (hxs : ∀ x ∈ xs, x.kind ∉ [Kind.semicolon, .lbrace, .rbrace, .eof])
    (hsemi : semi.kind = .semicolon) (rs : List Token) :
    ∃ t, (ws.drop limit ++ xs ++ [semi]).head? = some t ∧
      (parseTokens (ws ++ xs ++ semi :: rs) limit).outcomes =
        .error ⟨.nestedTooDeeply, some t⟩ :: (parseTokens rs limit).outcomes := by
  have hsplit := List.take_append_drop limit ws
  generalize htaken : ws.take limit = taken at hsplit
  generalize ws.drop limit = left at hsplit ⊢
  have hlength : taken.length = limit := by
    rw [← htaken, List.length_take, Nat.min_eq_left hlimit]
  have hne : taken ≠ [] := by
    rintro rfl
    exact absurd hlength (Nat.ne_of_lt hpos)
  have hplain : ∀ u ∈ taken ++ (left ++ xs),
      u.kind ∉ [Kind.semicolon, .lbrace, .rbrace, .eof] := by
    rw [← List.append_assoc, hsplit]
    refine List.forall_mem_append.2 ⟨fun w hw hmem => ?_, hxs⟩
    have hsub : [Kind.semicolon, .lbrace, .rbrace, .eof] ⊆
        [.letWord, .returnWord, .semicolon, .lbrace, .rbrace, .eof] := by decide
    exact Kind.not_mem_of_mem_openings (hws w hw) (hsub hmem)
  -- reading breaks off on the first token that the limit leaves, the semicolon if there is no other
  obtain ⟨t, ts, hts⟩ := List.exists_cons_of_ne_nil (l := left ++ xs ++ [semi]) (by simp)
  have hhead : (left ++ xs ++ [semi]).head? = some t := by rw [hts]; rfl
  have hbreaks : Breaks limit .statement taken (.on t .nestedTooDeeply (some t)) := by
    rw [← hlength]
    refine .statement_of_openings (fun w hw => hws w ?_) hne
    rw [← hsplit]
    exact List.mem_append_left left hw
  have houtcomes := parseTokens_of_breaks_on hplain hsemi hbreaks rfl rfl hhead rs
  rw [← List.append_assoc, hsplit] at houtcomes
  exact ⟨t, hhead, houtcomes⟩

/-! ## Within the limit -/

/-- What a run of openings makes of an expression: an operator takes what comes after it for its
operand, and a parenthesis leaves it as it is. -/
def Node.behind (ws : List Token) (e : Node) : Node :=
  ws.foldr (fun w e => if w.kind = .lparen then e else .unary w.text e) e

/-- A name behind openings, with as many closing parentheses as there are opening ones. -/
theorem Derives.of_openings (hws : ∀ w ∈ ws, w.kind ∈ Kind.openings) (hname : name.kind = .ident)
    (hclosings : ∀ c ∈ closings, c.kind = .rparen)
    (hcount : closings.length = ws.countP (·.kind = .lparen)) :
    Derives (ws.length + 1) (.expression .unary .plain (.behind ws (.identifier name.text)))
      (ws ++ name :: closings) := by
  induction ws generalizing closings with
  | nil =>
      obtain rfl := List.eq_nil_of_length_eq_zero hcount
      exact (Derives.identifier hname).loosen (by decide)
  | cons w ws ih =>
      obtain ⟨hw, hws'⟩ := List.forall_mem_cons.1 hws
      rw [List.countP_cons] at hcount
      rcases List.mem_cons.1 hw with hlparen | hunary
      · -- the parenthesis is closed by the last token
        rw [if_pos (by simp [hlparen])] at hcount
        rcases List.eq_nil_or_concat closings with rfl | ⟨inner, rp, rfl⟩
        · simp at hcount
        rw [List.concat_eq_append] at hclosings hcount ⊢
        obtain ⟨hinner, hrp⟩ := List.forall_mem_append.1 hclosings
        have he := ih hws' hinner (by simpa using hcount)
        have hgroup := Derives.group hlparen (he.loosen (by decide)) (hrp rp (by simp))
        rw [Node.behind, List.foldr_cons, if_pos hlparen]
        rw [List.append_assoc] at hgroup
        exact hgroup.loosen (by decide)
      · have hne : w.kind ≠ .lparen := by
          intro h
          rw [h] at hunary
          exact absurd hunary (by decide)
        rw [if_neg (by simp [hne])] at hcount
        rw [Node.behind, List.foldr_cons, if_neg hne]
        exact .unary hunary (ih hws' hclosings hcount)

/-- Openings in front of a name, closed after it, are a program within the limit. -/
theorem parseTokens_behind_openings (hws : ∀ w ∈ ws, w.kind ∈ Kind.openings)
    (hlimit : ws.length < limit) (hname : name.kind = .ident)
    (hclosings : ∀ c ∈ closings, c.kind = .rparen)
    (hcount : closings.length = ws.countP (·.kind = .lparen)) :
    (parseTokens (ws ++ name :: closings) limit).outcomes =
      [.ok (.expression (.behind ws (.identifier name.text)))] := by
  have hderives := (Derives.of_openings hws hname hclosings hcount).loosen (l := .equality) (by decide)
  have hlisted := hderives.kind_ne_of_not_mem (k := .eof) (by decide)
  have hstatements := (Derives.single (.expression (.bare hderives))).mono hlimit
  rw [← upcoming_start_ofList hlisted] at hstatements
  exact Cursor.outcomes_eq_iff.2 hstatements

/-! ## Both sides of the limit -/

/-- Whatever the limit is between a hundred and twenty and a thousand: a run of a thousand openings is
one error, up to the next semicolon, and a run of a hundred and twenty is read. -/
theorem openings_contained (hlow : 120 < limit) (hhigh : limit ≤ 1000)
    (hws : ∀ w ∈ ws, w.kind ∈ Kind.openings) :
    (1000 ≤ ws.length → ∀ (xs : List Token) (semi : Token) (rs : List Token),
      (∀ x ∈ xs, x.kind ∉ [Kind.semicolon, .lbrace, .rbrace, .eof]) → semi.kind = .semicolon →
      ∃ t, (parseTokens (ws ++ xs ++ semi :: rs) limit).outcomes =
        .error ⟨.nestedTooDeeply, some t⟩ :: (parseTokens rs limit).outcomes) ∧
    (ws.length ≤ 120 → ∀ (name : Token) (closings : List Token), name.kind = .ident →
      (∀ c ∈ closings, c.kind = .rparen) → closings.length = ws.countP (·.kind = .lparen) →
      (parseTokens (ws ++ name :: closings) limit).outcomes =
        [.ok (.expression (.behind ws (.identifier name.text)))]) := by
  constructor
  · intro hlong xs semi rs hxs hsemi
    have hpos : 0 < limit := Nat.zero_lt_of_lt hlow
    obtain ⟨t, -, houtcomes⟩ :=
      parseTokens_of_openings hws hpos (Nat.le_trans hhigh hlong) hxs hsemi rs
    exact ⟨t, houtcomes⟩
  · intro hshort name closings hname hclosings hcount
    exact parseTokens_behind_openings hws (Nat.lt_of_le_of_lt hshort hlow) hname hclosings hcount

/-- A run of a thousand openings or more, whatever comes after it up to the next semicolon, is one
error that says so, and nothing else is lost: no statement and no error of the tokens after that
semicolon.  A run of up to a hundred and twenty is read, without an error and without a trace of its
parentheses. -/
theorem nesting_contained (hws : ∀ w ∈ ws, w.kind ∈ [Kind.lparen, .bang, .minus]) :
    (1000 ≤ ws.length → ∀ (xs : List Token) (semi : Token) (rs : List Token),
      (∀ x ∈ xs, x.kind ∉ [Kind.semicolon, .lbrace, .rbrace, .eof]) → semi.kind = .semicolon →
      ∃ e : ParseError, e.cause.message = "expression nested too deeply" ∧
        (parseTokens (ws ++ xs ++ semi :: rs)).outcomes =
          .error e :: (parseTokens rs).outcomes) ∧
    (ws.length ≤ 120 → ∀ (name : Token) (closings : List Token), name.kind = .ident →
      (∀ c ∈ closings, c.kind = .rparen) → closings.length = ws.countP (·.kind = .lparen) →
      (parseTokens (ws ++ name :: closings)).outcomes =
        [.ok (.expression (.behind ws (.identifier name.text)))]) := by
  have hlow : 120 < Parse.nestingLimit := by decide
  have hhigh : Parse.nestingLimit ≤ 1000 := by decide
  obtain ⟨hdeep, hread⟩ := openings_contained hlow hhigh hws
  refine ⟨fun hlong xs semi rs hxs hsemi => ?_, hread⟩
  obtain ⟨t, houtcomes⟩ := hdeep hlong xs semi rs hxs hsemi
  exact ⟨⟨.nestedTooDeeply, some t⟩, rfl, houtcomes⟩

/-- A thousand parentheses before a stray operator, with a name after the semicolon; and `!(-x)`. -/
theorem nesting_contained_examples :
    let lparen : Token := ⟨.lparen, "(", 0, 0⟩
    let semi : Token := ⟨.semicolon, ";", 0, 0⟩
    let x : Token := ⟨.ident, "x", 0, 0⟩
    (∃ e : ParseError, e.cause.message = "expression nested too deeply" ∧
      (parseTokens (List.replicate 1000 lparen ++ [⟨.plus, "+", 0, 0⟩] ++ [semi, x])).outcomes =
        [.error e, .ok (.expression (.identifier "x"))]) ∧
    (parseTokens ([⟨.bang, "!", 0, 0⟩, lparen, ⟨.minus, "-", 0, 0⟩] ++
        x :: [⟨.rparen, ")", 0, 0⟩])).outcomes =
      [.ok (.expression (.unary "!" (.unary "-" (.identifier "x"))))] := by
  intro lparen semi x
  have hdeep : ∀ w ∈ List.replicate 1000 lparen, w.kind ∈ [Kind.lparen, .bang, .minus] := by
    intro w hw
    rw [List.eq_of_mem_replicate hw]
    decide
  have hrest : (parseTokens [x]).outcomes = [.ok (.expression (.identifier "x"))] := by
    decide +kernel
  constructor
  · obtain ⟨e, hmessage, houtcomes⟩ := (nesting_contained hdeep).1
      (Nat.le_of_eq List.length_replicate.symm) [⟨.plus, "+", 0, 0⟩] semi [x] (by decide) rfl
    exact ⟨e, hmessage, by rw [houtcomes, hrest]⟩
  · have hsigns : ∀ w ∈ ([⟨.bang, "!", 0, 0⟩, lparen, ⟨.minus, "-", 0, 0⟩] : List Token),
        w.kind ∈ [Kind.lparen, .bang, .minus] := by
      decide
    exact (nesting_contained hsigns).2 (by decide) x [⟨.rparen, ")", 0, 0⟩] rfl (by decide) rfl

end FnLang
