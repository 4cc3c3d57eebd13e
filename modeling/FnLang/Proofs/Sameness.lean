/- # FnLang.Proofs.Sameness — trees that are the same, as trees, as data and as text.

Two trees in which every node has a form can be compared in three ways: form by form, by their records,
where the order of the fields does not count, and by the texts of the records.  All three come down to
equality.  For trees and for records that is an induction over one of the trees; each form has its own
kind and fields, so its record is not that of another form.  For texts it is `Json.write_inj`.

Nodes without a form are left out, since their labels stand in the records and do not count when the
nodes are compared.
-/
import FnLang.Node.Data
import FnLang.Proofs.Formless
import FnLang.Proofs.JsonText

namespace FnLang

namespace Json

variable {fs gs : List (String × Json)}

theorem sameFields_iff :
    sameFields fs gs = true ↔ ∀ f ∈ fs, ∃ x, gs.lookup f.1 = some x ∧ f.2.same x = true := by
  induction fs with
  | nil => simp [sameFields]
  | cons f fs ih =>
      rw [sameFields, Bool.and_eq_true, ih, List.forall_mem_cons]
      cases gs.lookup f.1 <;> simp

@[simp] theorem same_record_iff :
    (record fs).same (record gs) = true ↔
      fs.length = gs.length ∧ ∀ f ∈ fs, ∃ x, gs.lookup f.1 = some x ∧ f.2.same x = true := by
  rw [same, Bool.and_eq_true, beq_iff_eq, sameFields_iff]

@[simp] theorem same_str_iff {s t : String} : (str s).same (str t) = true ↔ s = t := by
  rw [same, beq_iff_eq]

@[simp] theorem same_int_iff {m n : Int} : (int m).same (int n) = true ↔ m = n := by
  simp [same, number?]

@[simp] theorem same_bool_iff {b c : Bool} : (bool b).same (bool c) = true ↔ b = c := by
  cases b <;> cases c <;> simp [same, number?]

@[simp] theorem same_list_iff {xs ys : List Json} :
    (list xs).same (list ys) = true ↔ sameItems xs ys = true := by
  rw [same]

end Json

namespace Node

variable {a b : Node}

theorem sameItems_toJsonAll_iff {as bs : List Node}
    (h : ∀ a ∈ as, ∀ b : Node, a.toJson.same b.toJson = true ↔ a = b) :
    Json.sameItems (toJsonAll as) (toJsonAll bs) = true ↔ as = bs := by
  induction as generalizing bs with
  | nil => cases bs <;> simp [toJsonAll, Json.sameItems]
  | cons a as ih =>
      obtain ⟨ha, has⟩ := List.forall_mem_cons.1 h
      cases bs with
      | nil => simp [toJsonAll, Json.sameItems]
      | cons b bs => simp [toJsonAll, Json.sameItems, ha, ih has]

theorem same_null_toJson (b : Node) : Json.null.same b.toJson = false := by
  cases b <;> rfl

theorem same_toJson_null (a : Node) : a.toJson.same .null = false := by
  cases a <;> rfl

theorem same_toJsonOption_iff {x y : Option Node}
    (h : ∀ a ∈ x, ∀ b : Node, a.toJson.same b.toJson = true ↔ a = b) :
    (toJsonOption x).same (toJsonOption y) = true ↔ x = y := by
  cases x with
  | none => cases y <;> simp [toJsonOption, same_null_toJson, Json.same]
  | some a =>
      cases y with
      | none => simp [toJsonOption, same_toJson_null]
      | some b => simp [toJsonOption, h a rfl]

theorem exists_fields (a : Node) : ∃ fs, a.toJson = .record (("kind", .str a.kind) :: fs) := by
  cases a <;> exact ⟨_, rfl⟩

/-- The record of a node shows its kind. -/
theorem kind_eq_of_same (h : a.toJson.same b.toJson = true) : a.kind = b.kind := by
  obtain ⟨fs, hfs⟩ := exists_fields a
  obtain ⟨gs, hgs⟩ := exists_fields b
  rw [hfs, hgs, Json.same_record_iff, List.forall_mem_cons] at h
  obtain ⟨-, ⟨x, hx, hsame⟩, -⟩ := h
  obtain rfl : Json.str b.kind = x := Option.some.inj hx
  exact Json.same_str_iff.1 hsame

/-- Where every node has a form, a tree with the same record is the same tree. -/
theorem Formed.same_toJson_iff (ha : a.Formed) : a.toJson.same b.toJson = true ↔ a = b := by
  induction a using induction_children generalizing b with
  | step a ih =>
      have hchildren : ∀ c ∈ a.children, ∀ b : Node, c.toJson.same b.toJson = true ↔ c = b :=
        fun c hc b => ih c hc (ha.of_mem_children hc)
      by_cases hkind : a.kind = b.kind
      case neg =>
        exact iff_of_false (fun hsame => hkind (kind_eq_of_same hsame))
          fun heq => hkind (congrArg kind heq)
      -- another form has another kind, and a node without a form has fewer fields
      cases a with
      | identifier | integer | boolean =>
          cases b <;> simp [kind] at hkind <;> simp [toJson, List.lookup_cons]
      | function ps body =>
          have hps : ∀ p ∈ ps, ∀ b : Node, p.toJson.same b.toJson = true ↔ p = b :=
            fun p hp => hchildren p (List.mem_append_left [body] hp)
          have hbody := hchildren body (by simp [children])
          cases b <;> simp [kind] at hkind <;>
            simp [toJson, List.lookup_cons, sameItems_toJsonAll_iff hps, hbody]
      | unary op r | returning r | expression r =>
          have hr := hchildren r (by simp [children])
          cases b <;> simp [kind] at hkind <;> simp [toJson, List.lookup_cons, hr]
      | binary l op r | binding l r =>
          have hl := hchildren l (by simp [children])
          have hr := hchildren r (by simp [children])
          cases b <;> simp [kind] at hkind <;> simp [toJson, List.lookup_cons, hl, hr]
      | conditional c t e =>
          have hc := hchildren c (by simp [children])
          have ht := hchildren t (by simp [children])
          have he : ∀ a ∈ e, ∀ b : Node, a.toJson.same b.toJson = true ↔ a = b :=
            fun a ha => hchildren a (by simp [children, Option.mem_def.1 ha])
          cases b <;> simp [kind] at hkind <;>
            simp [toJson, List.lookup_cons, hc, ht, same_toJsonOption_iff he]
      | call f as =>
          have hf := hchildren f (by simp [children])
          have has : ∀ a ∈ as, ∀ b : Node, a.toJson.same b.toJson = true ↔ a = b :=
            fun a ha => hchildren a (List.mem_cons_of_mem f ha)
          cases b <;> simp [kind] at hkind <;>
            simp [toJson, List.lookup_cons, hf, sameItems_toJsonAll_iff has]
      | block ss | program ss =>
          have hss : ∀ s ∈ ss, ∀ b : Node, s.toJson.same b.toJson = true ↔ s = b := hchildren
          cases b <;> simp [kind] at hkind <;>
            simp [toJson, List.lookup_cons, sameItems_toJsonAll_iff hss]
      | formless f l => exact absurd (ha _ .here) (by simp [isFormless])

/-! ## Sameness -/

variable {labels : String → String → Bool}

theorem agreeAll_iff {as bs : List Node} (h : ∀ a ∈ as, ∀ b, agree labels a b = true ↔ a = b) :
    agreeAll labels as bs = true ↔ as = bs := by
  induction as generalizing bs with
  | nil => cases bs <;> simp [agreeAll]
  | cons a as ih =>
      obtain ⟨ha, has⟩ := List.forall_mem_cons.1 h
      cases bs with
      | nil => simp [agreeAll]
      | cons b bs => simp [agreeAll, ha, ih has]

theorem agreeOption_iff {x y : Option Node} (h : ∀ a ∈ x, ∀ b, agree labels a b = true ↔ a = b) :
    agreeOption labels x y = true ↔ x = y := by
  cases x with
  | none => cases y <;> simp [agreeOption]
  | some a =>
      cases y with
      | none => simp [agreeOption]
      | some b => simp [agreeOption, h a rfl]

/-- Where every node has a form there are no labels, and trees that agree are equal. -/
theorem Formed.agree_iff (ha : a.Formed) : agree labels a b = true ↔ a = b := by
  induction a using induction_children generalizing b with
  | step a ih =>
      have hchildren : ∀ c ∈ a.children, ∀ b, agree labels c b = true ↔ c = b :=
        fun c hc b => ih c hc (ha.of_mem_children hc)
      cases a with
      | identifier | integer | boolean => cases b <;> simp [agree]
      | function ps body =>
          have hps : ∀ p ∈ ps, ∀ b, agree labels p b = true ↔ p = b :=
            fun p hp => hchildren p (List.mem_append_left [body] hp)
          have hbody := hchildren body (by simp [children])
          cases b <;> simp [agree, agreeAll_iff hps, hbody]
      | unary op r | returning r | expression r =>
          have hr := hchildren r (by simp [children])
          cases b <;> simp [agree, hr]
      | binary l op r | binding l r =>
          have hl := hchildren l (by simp [children])
          have hr := hchildren r (by simp [children])
          cases b <;> simp [agree, hl, hr, and_assoc]
      | conditional c t e =>
          have hc := hchildren c (by simp [children])
          have ht := hchildren t (by simp [children])
          have he : ∀ a ∈ e, ∀ b, agree labels a b = true ↔ a = b :=
            fun a ha => hchildren a (by simp [children, Option.mem_def.1 ha])
          cases b <;> simp [agree, hc, ht, agreeOption_iff he, and_assoc]
      | call f as =>
          have hf := hchildren f (by simp [children])
          have has : ∀ a ∈ as, ∀ b, agree labels a b = true ↔ a = b :=
            fun a ha => hchildren a (List.mem_cons_of_mem f ha)
          cases b <;> simp [agree, hf, agreeAll_iff has]
      | block ss | program ss =>
          have hss : ∀ s ∈ ss, ∀ b, agree labels s b = true ↔ s = b := hchildren
          cases b <;> simp [agree, agreeAll_iff hss]
      | formless f l => exact absurd (ha _ .here) (by simp [isFormless])

/-- Trees in which every node has a form are the same exactly if their records are, and exactly if the
texts of these are: the text determines the tree. -/
theorem same_iff_same_text (ha : a.Formed) :
    (a.same b = true ↔ a.toJson.same b.toJson = true) ∧
      (a.same b = true ↔ a.toJson.write = b.toJson.write) ∧
      (a.toJson.write = b.toJson.write → a = b) := by
  have hsame : a.same b = true ↔ a = b := ha.agree_iff
  have hdata : a.toJson.same b.toJson = true ↔ a = b := ha.same_toJson_iff
  have htext (h : a.toJson.write = b.toJson.write) : a = b := by
    rw [← hdata, ← Json.write_inj h]
    exact ha.same_toJson_iff.2 rfl
  refine ⟨hsame.trans hdata.symm, hsame.trans ⟨?_, htext⟩, htext⟩
  rintro rfl
  rfl

/-- A conditional with an empty alternative is told from one without any, and a quotation mark in a
name from the mark that ends it. -/
theorem same_iff_same_text_examples :
    let without : Node := .conditional (.boolean true) (.block []) none
    let empty : Node := .conditional (.boolean true) (.block []) (some (.block []))
    let quoted : Node := .call (.identifier "f\"") [.integer (-1)]
    without.same empty = false ∧ without.toJson.same empty.toJson = false ∧
      without.toJson.write ≠ empty.toJson.write ∧
      ∀ b : Node, quoted.toJson.write = b.toJson.write → quoted = b := by
  intro without empty quoted
  have hwithout : without.Formed := formed_iff.2 (by
    simp [without, emission_eq, emitted, children, isFormless])
  have hquoted : quoted.Formed := formed_iff.2 (by
    simp [quoted, emission_eq, emitted, children, isFormless])
  obtain ⟨hdata, htext, -⟩ := same_iff_same_text (b := empty) hwithout
  have hdiffer : without.same empty = false := rfl
  rw [← Bool.not_eq_true, hdata, Bool.not_eq_true] at hdiffer
  exact ⟨rfl, hdiffer, fun h => Bool.noConfusion (htext.2 h),
    fun b => (same_iff_same_text hquoted).2.2⟩

end Node

end FnLang
