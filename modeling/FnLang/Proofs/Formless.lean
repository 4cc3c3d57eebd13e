/- # FnLang.Proofs.Formless — nodes without a form, and how rendering meets them.

A node without a form may stand anywhere in a tree, and it has no text.  Rendering goes through a tree
node by node; `Node.emission` is the order in which it comes to them, that of the fields except that
the arguments of a call come before what is called.  A tree has a text exactly if no node without a
form occurs in it, and otherwise the first one in that order is what rendering stops at.

The order is of no concern to any single form.  What is said of a part of the rendering is that it
visits some nodes one after the other (`Visits`): to visit more nodes afterwards is `Visits.bind`, and
a form is a few of these steps.
-/
import FnLang.Node.Render

namespace FnLang

namespace Node

variable {a b c : Node}

/-! ## Nodes in a tree -/

/-- The node `b` occurs in the tree `a`: it is the tree, or it occurs in a node directly below it. -/
inductive Occurs (b : Node) : Node → Prop
  | here : Occurs b b
  | inside {a c : Node} : c ∈ a.children → Occurs b c → Occurs b a

theorem sizeOf_lt_of_mem_children (h : b ∈ a.children) : sizeOf b < sizeOf a := by
  have mem {bs : List Node} (hb : b ∈ bs) : sizeOf b < sizeOf bs := List.sizeOf_lt_of_mem hb
  cases a with
  | identifier | integer | boolean | formless => simp [children] at h
  | function ps body =>
      rcases List.mem_append.1 h with hb | hb
      · have := mem hb
        simp only [function.sizeOf_spec]
        omega
      · obtain rfl := List.mem_singleton.1 hb
        simp only [function.sizeOf_spec]
        omega
  | unary | returning | expression =>
      obtain rfl := List.mem_singleton.1 h
      simp only [unary.sizeOf_spec, returning.sizeOf_spec, expression.sizeOf_spec]
      omega
  | binary l op r | binding l r =>
      simp only [children, List.mem_cons, List.not_mem_nil, or_false] at h
      simp only [binary.sizeOf_spec, binding.sizeOf_spec]
      rcases h with rfl | rfl <;> omega
  | conditional c t e =>
      simp only [children, List.mem_cons, Option.mem_toList] at h
      simp only [conditional.sizeOf_spec]
      rcases h with rfl | rfl | rfl
      · omega
      · omega
      · simp only [Option.some.sizeOf_spec]
        omega
  | call f as =>
      simp only [call.sizeOf_spec]
      rcases List.mem_cons.1 h with rfl | hb
      · omega
      · have := mem hb
        omega
  | block ss | program ss =>
      have hmem : b ∈ ss := h
      have := mem hmem
      simp only [block.sizeOf_spec, program.sizeOf_spec]
      omega

/-- What holds of a tree if it holds of the nodes directly below it holds of every tree. -/
theorem induction_children {P : Node → Prop} (step : ∀ a : Node, (∀ b ∈ a.children, P b) → P a)
    (a : Node) : P a :=
  step a fun b _ => induction_children step b
termination_by sizeOf a
decreasing_by exact sizeOf_lt_of_mem_children ‹_›

/-! ## The order of rendering -/

/-- The nodes directly below a node, in the order in which rendering comes to them. -/
def emitted : Node → List Node
  | call callee arguments => arguments ++ [callee]
  | a => a.children

theorem mem_emitted : b ∈ a.emitted ↔ b ∈ a.children := by
  cases a with
  | call f as => simp [emitted, children, or_comm]
  | _ => rfl

/-- The nodes that occur in a tree, in the order in which rendering comes to them. -/
def emission (a : Node) : List Node :=
  a :: a.emitted.attach.flatMap fun b => b.1.emission
termination_by sizeOf a
decreasing_by exact sizeOf_lt_of_mem_children (mem_emitted.1 b.2)

theorem emission_eq (a : Node) : a.emission = a :: a.emitted.flatMap emission := by
  rw [emission, List.flatMap_subtype (g := emission) fun _ _ => rfl, List.unattach_attach]

/-- The nodes that rendering comes to are those that occur in the tree. -/
theorem mem_emission : b ∈ a.emission ↔ b.Occurs a := by
  induction a using induction_children with
  | step a ih =>
      rw [emission_eq, List.mem_cons, List.mem_flatMap]
      constructor
      · rintro (rfl | ⟨c, hc, hb⟩)
        · exact .here
        · exact .inside (mem_emitted.1 hc) ((ih c (mem_emitted.1 hc)).1 hb)
      · rintro (_ | ⟨hc, hb⟩)
        · exact .inl rfl
        · exact .inr ⟨_, mem_emitted.2 hc, (ih _ hc).2 hb⟩

/-! ## Steps of rendering -/

/-- A node without a form. -/
def isFormless : Node → Bool
  | formless _ _ => true
  | _ => false

/-- Every node of the tree has a form. -/
def Formed (a : Node) : Prop :=
  ∀ b : Node, b.Occurs a → b.isFormless = false

theorem formed_iff : a.Formed ↔ ∀ b ∈ a.emission, b.isFormless = false := by
  simp only [mem_emission, Formed]

theorem Formed.of_mem_children (h : a.Formed) (hb : b ∈ a.children) : b.Formed :=
  fun _ hc => h _ (.inside hb hc)

/-- The first node without a form that rendering comes to in some trees, one after the other. -/
def firstFormless? (as : List Node) : Option Node :=
  (as.flatMap emission).find? isFormless

theorem firstFormless?_append (as bs : List Node) :
    firstFormless? (as ++ bs) = (firstFormless? as).or (firstFormless? bs) := by
  rw [firstFormless?, List.flatMap_append, List.find?_append]
  rfl

/-- Below a node that has a form, the search goes on among the nodes directly below it. -/
theorem firstFormless?_singleton (h : a.isFormless = false) :
    firstFormless? [a] = firstFormless? a.emitted := by
  rw [firstFormless?, List.flatMap_singleton, emission_eq, List.find?_cons_of_neg (by simp [h])]
  rfl

theorem firstFormless?_eq_none_iff : firstFormless? [a] = none ↔ a.Formed := by
  rw [firstFormless?, List.flatMap_singleton, List.find?_eq_none, formed_iff]
  simp only [Bool.not_eq_true]

/-- A step of rendering that visits some trees, one after the other: it gives something if all their
nodes have a form, and stops at the first one that has none. -/
def Visits {α : Type} (as : List Node) (r : Except RenderFault α) : Prop :=
  match firstFormless? as with
  | none => ∃ t, r = .ok t
  | some b => r = .error (.ofLabel b.kind)

namespace Visits

variable {α β : Type} {as bs : List Node} {r : Except RenderFault α}

theorem pure (t : α) : Visits [] (.ok t) :=
  ⟨t, rfl⟩

/-- What a step stops at stops the steps after it. -/
theorem bind {f : α → Except RenderFault β} (h : Visits as r) (hf : ∀ t, Visits bs (f t)) :
    Visits (as ++ bs) (r >>= f) := by
  unfold Visits at h ⊢
  rw [firstFormless?_append]
  cases hfirst : firstFormless? as with
  | none =>
      rw [hfirst] at h
      obtain ⟨t, rfl⟩ := h
      exact hf t
  | some b =>
      rw [hfirst] at h
      subst h
      rfl

theorem map (f : α → β) (h : Visits as r) :
    Visits as (r >>= fun t => Except.ok (f t)) := by
  have hbind := h.bind fun t => pure (f t)
  rwa [List.append_nil] at hbind

theorem exists_ok_iff (h : Visits [a] r) : (∃ t, r = .ok t) ↔ a.Formed := by
  unfold Visits at h
  rw [← firstFormless?_eq_none_iff]
  cases hfirst : firstFormless? [a] with
  | none =>
      rw [hfirst] at h
      exact ⟨fun _ => rfl, fun _ => h⟩
  | some b =>
      rw [hfirst] at h
      simp [h]

theorem eq_error (h : Visits as r) (hb : firstFormless? as = some b) :
    r = .error (.ofLabel b.kind) := by
  rwa [Visits, hb] at h

/-- To visit the nodes directly below a node that has a form is to visit the node. -/
theorem form (h : Visits a.emitted r) (ha : a.isFormless = false) : Visits [a] r := by
  rw [Visits, firstFormless?_singleton ha]
  exact h

end Visits

/-! ## Every form -/

theorem visits_renderAll {as : List Node} (h : ∀ a ∈ as, Visits [a] a.render) :
    Visits as (renderAll as) := by
  induction as with
  | nil => exact .pure []
  | cons a as ih =>
      obtain ⟨ha, has⟩ := List.forall_mem_cons.1 h
      exact ha.bind fun t => (ih has).map (t :: ·)

theorem visits_renderStatements {ss : List Node} (h : ∀ s ∈ ss, Visits [s] s.render) :
    Visits ss (renderStatements ss) := by
  induction ss with
  | nil => exact .pure []
  | cons s ss ih =>
      obtain ⟨hs, hss⟩ := List.forall_mem_cons.1 h
      exact hs.bind fun t => (ih hss).map ((t ++ s.terminator) :: ·)

/-- Rendering visits the tree: the induction is on the tree, and each form is the steps it is made of,
in their order. -/
theorem visits_render (a : Node) : Visits [a] a.render := by
  induction a using induction_children with
  | step a ih =>
  cases a with
  | identifier | integer | boolean => exact .form (.pure _) rfl
  | function ps body =>
      have hps := visits_renderAll fun p hp => ih p (List.mem_append_left _ hp)
      have hbody := ih body (List.mem_append_right ps (List.mem_singleton.2 rfl))
      exact .form (hps.bind fun _ => hbody.map _) rfl
  | unary op e => exact .form ((ih e (by simp [children])).map _) rfl
  | binary l op r =>
      have hl := ih l (by simp [children])
      have hr := ih r (by simp [children])
      exact .form (hl.bind fun _ => hr.map _) rfl
  | conditional c t e =>
      have hc := ih c (by simp [children])
      have ht := ih t (by simp [children])
      cases e with
      | none => exact .form (hc.bind fun _ => ht.map _) rfl
      | some e =>
          have he := ih e (by simp [children])
          exact .form (hc.bind fun _ => ht.bind fun _ => he.map _) rfl
  | call f as =>
      have has := visits_renderAll fun a ha => ih a (List.mem_cons_of_mem f ha)
      have hf := ih f (by simp [children])
      exact .form (has.bind fun _ => hf.map _) rfl
  | binding n e =>
      have hn := ih n (by simp [children])
      have he := ih e (by simp [children])
      exact .form (hn.bind fun _ => he.map _) rfl
  | returning e => exact .form ((ih e (by simp [children])).map _) rfl
  | expression e => exact .form (ih e (by simp [children])) rfl
  | block ss =>
      cases ss with
      | nil => exact .form (.pure _) rfl
      | cons s ss => exact .form ((visits_renderStatements ih).map _) rfl
  | program ss => exact .form ((visits_renderStatements ih).map _) rfl
  | formless family label =>
      rw [Visits, firstFormless?, List.flatMap_singleton, emission_eq, List.find?_cons_of_pos rfl]
      rfl

/-! ## Where rendering stops -/

/-- The labels that a way of rendering goes by: those of the forms, and that of statements with what
ends them. -/
def renderings : List String :=
  ["identifier", "integer", "boolean", "function", "prefix", "infix", "if", "call", "let", "return",
   "expression", "block", "program", "terminated"]

theorem ofLabel_eq_noForm {label : String} (h : label ∉ renderings) :
    RenderFault.ofLabel label = .noForm label := by
  have hfield : RenderFault.firstField? label = none := by
    unfold RenderFault.firstField?
    split <;> first | rfl | exact absurd (by decide) h
  rw [RenderFault.ofLabel, hfield]

theorem visits_renderTerminated (a : Node) : Visits [a] a.renderTerminated :=
  a.visits_render.map (· ++ a.terminator)

/-- Rendering gives a text, with what ends a statement or without it, exactly if every node of the tree
has a form.  Otherwise it stops at the first node without one, in the order of rendering, and names
its label. -/
theorem rendering_stops_at_first (a : Node)
    (h : ∀ b : Node, b.Occurs a → b.isFormless = true → b.kind ∉ renderings) :
    ((∃ t, a.render = .ok t) ↔ a.Formed) ∧ ((∃ t, a.renderTerminated = .ok t) ↔ a.Formed) ∧
      (¬ a.Formed → ∃ b : Node, a.emission.find? isFormless = some b ∧
        a.render = .error (.noForm b.kind) ∧ a.renderTerminated = .error (.noForm b.kind)) := by
  refine ⟨a.visits_render.exists_ok_iff, a.visits_renderTerminated.exists_ok_iff, fun hformed => ?_⟩
  rw [← firstFormless?_eq_none_iff] at hformed
  obtain ⟨b, hb⟩ := Option.ne_none_iff_exists'.1 hformed
  have hfirst : a.emission.find? isFormless = some b := by
    rwa [firstFormless?, List.flatMap_singleton] at hb
  have hoccurs : b.Occurs a := mem_emission.1 (List.mem_of_find?_eq_some hfirst)
  have hlabel := ofLabel_eq_noForm (h b hoccurs (List.find?_some hfirst))
  refine ⟨b, hfirst, ?_, ?_⟩
  · rw [a.visits_render.eq_error hb, hlabel]
  · rw [a.visits_renderTerminated.eq_error hb, hlabel]

/-- In a call of a node without a form with another one below an argument, rendering stops at the one
in the argument.  A call without such nodes has a text. -/
theorem rendering_stops_at_first_examples :
    let argument : Node := .unary "-" (.formless .expression "inner")
    let called : Node := .call (.formless .node "outer") [.integer 1, argument]
    let plain : Node := .expression (.call (.identifier "f") [.integer 1])
    called.render = .error (.noForm "inner") ∧
      called.renderTerminated = .error (.noForm "inner") ∧
      (∃ t, plain.render = .ok t) ∧ ∃ t, plain.renderTerminated = .ok t := by
  intro argument called plain
  have hcalled : called.emission = [called, .integer 1, argument, .formless .expression "inner",
      .formless .node "outer"] := by
    simp [called, argument, emission_eq, emitted, children]
  have hplain : plain.emission = [plain, .call (.identifier "f") [.integer 1], .integer 1,
      .identifier "f"] := by
    simp [plain, emission_eq, emitted, children]
  have hlabels : ∀ b : Node, b.Occurs called → b.isFormless = true → b.kind ∉ renderings := by
    intro b hb
    rw [← mem_emission, hcalled] at hb
    simp only [List.mem_cons, List.not_mem_nil, or_false] at hb
    rcases hb with rfl | rfl | rfl | rfl | rfl <;> decide
  have hforms : plain.Formed := formed_iff.2 (by simp [hplain, isFormless, plain])
  have hnot : ¬ called.Formed := by
    intro hformed
    have houter := hformed (.formless .node "outer") (mem_emission.1 (by rw [hcalled]; simp))
    exact absurd houter (by decide)
  obtain ⟨-, -, hstops⟩ := rendering_stops_at_first called hlabels
  obtain ⟨b, hb, hrender, hterminated⟩ := hstops hnot
  rw [hcalled] at hb
  obtain rfl : Node.formless .expression "inner" = b := Option.some.inj hb
  obtain ⟨htext, hended, -⟩ := rendering_stops_at_first plain fun b hb hformless =>
    absurd hformless (by simp [hforms b hb])
  exact ⟨hrender, hterminated, htext.2 hforms, hended.2 hforms⟩

end Node

end FnLang
