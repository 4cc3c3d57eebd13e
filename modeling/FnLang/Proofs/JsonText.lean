/- # FnLang.Proofs.JsonText — the text of data determines the data.

A text is told apart from what comes after it if it shows where it ends.  A string does so by its
mark, a list or a record by its bracket; a number goes on as long as there are digits.  So a text is
considered in front of a character that ends a number as well: a value is readable (`Readable`) if no
text of another value begins in the same way there.

A character inside a string is readable in front of anything.  It is itself, or a backslash with a
mark, or one or two UTF-16 units; units are of one width, and those of a pair are no characters.  The
entries of a list come each after a comma, and its end after none, so a list is readable as soon as
its entries are.
-/
import FnLang.Json
import FnLang.Proofs.Spelling
import Mathlib.Algebra.Group.Nat.Defs

namespace FnLang

namespace Json

variable {α : Type} {u v : List Char}

/-! ## Characters -/

theorem digitChar_inj : ∀ m < 16, ∀ n < 16, Nat.digitChar m = Nat.digitChar n → m = n := by
  decide

/-- Numbers that fit in the width are told apart by their digits. -/
theorem hex_inj {width m n : Nat} (hm : m < 16 ^ width) (hn : n < 16 ^ width)
    (h : Text.hex width m = Text.hex width n) : m = n := by
  induction width generalizing m n with
  | zero => omega
  | succ width ih =>
      rw [Nat.pow_succ] at hm hn
      obtain ⟨hinit, hlast⟩ := List.append_inj' h rfl
      have hdiv : m / 16 = n / 16 := ih (by omega) (by omega) hinit
      have hmod : m % 16 = n % 16 :=
        digitChar_inj _ (Nat.mod_lt m (by decide)) _ (Nat.mod_lt n (by decide))
          (List.cons.inj hlast).1
      omega

/-- A UTF-16 unit as it is written inside a string. -/
def unitText (n : Nat) : List Char :=
  '\\' :: 'u' :: Text.hex 4 n

theorem unitText_split {m n : Nat} (hm : m < 0x10000) (hn : n < 0x10000)
    (h : unitText m ++ u = unitText n ++ v) : m = n ∧ u = v := by
  obtain ⟨hunit, hrest⟩ := List.append_inj h (by simp [unitText])
  exact ⟨hex_inj hm hn (List.cons.inj (List.cons.inj hunit).2).2, hrest⟩

/-- No character is half of a surrogate pair. -/
theorem toNat_bounds (c : Char) :
    c.toNat < 0x110000 ∧ ¬ (0xD800 ≤ c.toNat ∧ c.toNat < 0xE000) := by
  have hvalid : c.toNat.isValidChar := c.valid
  unfold Nat.isValidChar at hvalid
  omega

/-- Characters are told apart by their UTF-16 units. -/
theorem units_split {c d : Char}
    (h : (units16 c.toNat).flatMap unitText ++ u = (units16 d.toNat).flatMap unitText ++ v) :
    c = d ∧ u = v := by
  have hc := toNat_bounds c
  have hd := toNat_bounds d
  have both (hnat : c.toNat = d.toNat) (huv : u = v) : c = d ∧ u = v :=
    ⟨Char.toNat_inj.1 hnat, huv⟩
  unfold units16 at h
  split at h <;> split at h <;>
    simp only [List.flatMap_cons, List.flatMap_nil, List.append_nil, List.append_assoc] at h
  · obtain ⟨hunit, huv⟩ := unitText_split (by omega) (by omega) h
    exact both hunit huv
  · -- one character would be the first half of the pair that the other one is
    obtain ⟨hhigh, -⟩ := unitText_split (by omega) (by omega) h
    omega
  · obtain ⟨hhigh, -⟩ := unitText_split (by omega) (by omega) h
    omega
  · obtain ⟨hhigh, hrest⟩ := unitText_split (by omega) (by omega) h
    obtain ⟨hlow, huv⟩ := unitText_split (by omega) (by omega) hrest
    exact both (by omega) huv

/-- The marks after a backslash, with the characters that they stand for. -/
def marks : List (Char × Char) :=
  [('"', '"'), ('\\', '\\'), ('n', '\n'), ('r', '\r'), ('t', '\t'), ('b', '\x08'), ('f', '\x0c')]

theorem mark_inj : ∀ p ∈ marks, ∀ q ∈ marks, p.1 = q.1 → p.2 = q.2 := by
  decide

theorem mark_ne_u : ∀ p ∈ marks, p.1 ≠ 'u' := by
  decide

/-- The ways in which a character is written inside a string. -/
inductive EscapedAs (c : Char) : List Char → Prop
  | itself : c ≠ '"' → c ≠ '\\' → EscapedAs c [c]
  | mark {m : Char} : (m, c) ∈ marks → EscapedAs c ['\\', m]
  | units : EscapedAs c ((units16 c.toNat).flatMap unitText)

theorem escapedAs_escaped (c : Char) : EscapedAs c (escaped c) := by
  unfold escaped
  split
  · next h => rcases h with rfl | rfl <;> exact .mark (by decide)
  · next hplain =>
    rw [not_or] at hplain
    split
    · next h => exact h ▸ .mark (by decide)
    split
    · next h => exact h ▸ .mark (by decide)
    split
    · next h => exact h ▸ .mark (by decide)
    split
    · next h => exact h ▸ .mark (by decide)
    split
    · next h => exact h ▸ .mark (by decide)
    split
    · exact .itself hplain.1 hplain.2
    · exact .units

/-- The units of a character begin with a backslash and the letter that no mark is. -/
theorem exists_units (n : Nat) : ∃ w, (units16 n).flatMap unitText = '\\' :: 'u' :: w := by
  unfold units16
  split <;> exact ⟨_, rfl⟩

theorem EscapedAs.head {c : Char} {s : List Char} (h : EscapedAs c s) :
    ∃ e es, s = e :: es ∧ e ≠ '"' := by
  cases h with
  | itself hmark _ => exact ⟨c, [], rfl, hmark⟩
  | @mark m _ => exact ⟨'\\', [m], rfl, by decide⟩
  | units =>
      obtain ⟨w, hw⟩ := exists_units c.toNat
      exact ⟨'\\', 'u' :: w, hw, by decide⟩

/-- A character inside a string is readable in front of anything. -/
theorem escaped_split {c d : Char} (h : escaped c ++ u = escaped d ++ v) : c = d ∧ u = v := by
  have hc := escapedAs_escaped c
  have hd := escapedAs_escaped d
  obtain ⟨w, hw⟩ := exists_units c.toNat
  obtain ⟨z, hz⟩ := exists_units d.toNat
  generalize escaped c = s at h hc
  generalize escaped d = t at h hd
  cases hc with
  | itself _ hslash =>
      cases hd with
      | itself => exact List.cons.inj h
      | mark => exact absurd (List.cons.inj h).1 hslash
      | units =>
          rw [hz] at h
          exact absurd (List.cons.inj h).1 hslash
  | mark hm =>
      cases hd with
      | itself _ hslash => exact absurd (List.cons.inj h).1.symm hslash
      | mark hm' =>
          obtain ⟨hmark, huv⟩ := List.cons.inj (List.cons.inj h).2
          exact ⟨mark_inj _ hm _ hm' hmark, huv⟩
      | units =>
          rw [hz] at h
          exact absurd (List.cons.inj (List.cons.inj h).2).1 (mark_ne_u _ hm)
  | units =>
      cases hd with
      | itself _ hslash =>
          rw [hw] at h
          exact absurd (List.cons.inj h).1.symm hslash
      | mark hm =>
          rw [hw] at h
          exact absurd (List.cons.inj (List.cons.inj h).2).1.symm (mark_ne_u _ hm)
      | units => exact units_split h

/-! ## Strings -/

/-- A string is readable by its closing mark. -/
theorem string_split {cs ds : List Char}
    (h : cs.flatMap escaped ++ '"' :: u = ds.flatMap escaped ++ '"' :: v) : cs = ds ∧ u = v := by
  induction cs generalizing ds with
  | nil =>
      cases ds with
      | nil => exact ⟨rfl, (List.cons.inj h).2⟩
      | cons d ds =>
          obtain ⟨e, es, he, hne⟩ := (escapedAs_escaped d).head
          rw [List.flatMap_cons, he] at h
          exact absurd (List.cons.inj h).1.symm hne
  | cons c cs ih =>
      cases ds with
      | nil =>
          obtain ⟨e, es, he, hne⟩ := (escapedAs_escaped c).head
          rw [List.flatMap_cons, he] at h
          exact absurd (List.cons.inj h).1 hne
      | cons d ds =>
          rw [List.flatMap_cons, List.flatMap_cons, List.append_assoc, List.append_assoc] at h
          obtain ⟨rfl, hrest⟩ := escaped_split h
          obtain ⟨rfl, huv⟩ := ih hrest
          exact ⟨rfl, huv⟩

theorem toList_writeString (s : String) :
    (writeString s).toList = '"' :: (s.toList.flatMap escaped ++ ['"']) :=
  String.toList_ofList

theorem writeString_split {s t : String}
    (h : (writeString s).toList ++ u = (writeString t).toList ++ v) : s = t ∧ u = v := by
  rw [toList_writeString, toList_writeString, List.cons_append, List.cons_append, List.append_assoc,
    List.append_assoc] at h
  obtain ⟨hst, huv⟩ := string_split (List.cons.inj h).2
  exact ⟨String.toList_inj.1 hst, huv⟩

/-! ## Numbers -/

theorem toDigits_split {m n : Nat} (hu : Ends u) (hv : Ends v)
    (h : Nat.toDigits 10 m ++ u = Nat.toDigits 10 n ++ v) : m = n ∧ u = v := by
  have hdigits (k : Nat) : ∀ c ∈ Nat.toDigits 10 k, c.isDigit = true :=
    fun c hc => Nat.isDigit_of_mem_toDigits (by decide) (by decide) hc
  obtain ⟨htake, hdrop⟩ := hu.takeWhile_append (p := Char.isDigit) rfl (hdigits m)
  obtain ⟨htake', hdrop'⟩ := hv.takeWhile_append (p := Char.isDigit) rfl (hdigits n)
  rw [h] at htake hdrop
  refine ⟨?_, hdrop.symm.trans hdrop'⟩
  calc m = Nat.ofDigitChars 10 (Nat.toDigits 10 m) 0 := Nat.ofDigitChars_ten_toDigits.symm
    _ = Nat.ofDigitChars 10 (Nat.toDigits 10 n) 0 := by rw [← htake, htake']
    _ = n := Nat.ofDigitChars_ten_toDigits

/-- A number begins with a digit, unless with its sign. -/
theorem minus_ne_toDigits {n : Nat} (h : '-' :: u = Nat.toDigits 10 n ++ v) : False := by
  have hmem : '-' ∈ Nat.toDigits 10 n := by
    obtain ⟨c, cs, hcs⟩ := List.exists_cons_of_ne_nil (Nat.toDigits_ne_nil (n := n) (b := 10))
    rw [hcs] at h ⊢
    rw [(List.cons.inj h).1]
    simp
  exact absurd (Nat.isDigit_of_mem_toDigits (by decide) (by decide) hmem) (by decide)

theorem toList_write_ofNat (n : Nat) : (Text.Numeral.write (.ofNat n)).toList = Nat.toDigits 10 n :=
  String.toList_ofList

theorem toList_write_negSucc (n : Nat) :
    (Text.Numeral.write (.negSucc n)).toList = '-' :: Nat.toDigits 10 (n + 1) :=
  String.toList_ofList

theorem number_split {m n : Int} (hu : Ends u) (hv : Ends v)
    (h : (Text.Numeral.write m).toList ++ u = (Text.Numeral.write n).toList ++ v) :
    m = n ∧ u = v := by
  cases m with
  | ofNat m =>
      rw [toList_write_ofNat] at h
      cases n with
      | ofNat n =>
          rw [toList_write_ofNat] at h
          obtain ⟨rfl, huv⟩ := toDigits_split hu hv h
          exact ⟨rfl, huv⟩
      | negSucc n =>
          rw [toList_write_negSucc] at h
          exact (minus_ne_toDigits h.symm).elim
  | negSucc m =>
      rw [toList_write_negSucc] at h
      cases n with
      | ofNat n =>
          rw [toList_write_ofNat] at h
          exact (minus_ne_toDigits h).elim
      | negSucc n =>
          rw [toList_write_negSucc] at h
          obtain ⟨hmn, huv⟩ := toDigits_split hu hv (List.cons.inj h).2
          exact ⟨by rw [Nat.succ.inj hmn], huv⟩

/-! ## Entries -/

/-- No text of another value begins like the text of `a`, in front of what ends a number. -/
def Readable (f : α → String) (a : α) : Prop :=
  ∀ {b : α} {u v : List Char}, Ends u → Ends v →
    (f a).toList ++ u = (f b).toList ++ v → a = b ∧ u = v

section

variable {f : α → String} {sep stop : List Char}

/-- The entries after the first one, with the end of the list. -/
def later (f : α → String) (sep stop : List Char) (as : List α) : List Char :=
  as.flatMap (fun a => ',' :: (sep ++ (f a).toList)) ++ '\n' :: stop

theorem later_cons (a : α) (as : List α) :
    later f sep stop (a :: as) = ',' :: (sep ++ ((f a).toList ++ later f sep stop as)) := by
  simp [later]

theorem ends_later (as : List α) : Ends (later f sep stop as ++ u) := by
  cases as with
  | nil => exact ends_cons rfl
  | cons => exact ends_cons rfl

/-- A comma tells an entry from the end of the list. -/
theorem later_split {as bs : List α} (has : ∀ a ∈ as, Readable f a)
    (h : later f sep stop as ++ u = later f sep stop bs ++ v) : as = bs ∧ u = v := by
  induction as generalizing bs with
  | nil =>
      cases bs with
      | nil => exact ⟨rfl, List.append_cancel_left h⟩
      | cons b bs => exact absurd (List.cons.inj h).1 (by decide)
  | cons a as ih =>
      cases bs with
      | nil => exact absurd (List.cons.inj h).1 (by decide)
      | cons b bs =>
          obtain ⟨ha, has⟩ := List.forall_mem_cons.1 has
          simp only [later_cons, List.cons_append, List.append_assoc] at h
          obtain ⟨rfl, hrest⟩ := ha (ends_later as) (ends_later bs)
            (List.append_cancel_left (List.cons.inj h).2)
          obtain ⟨rfl, huv⟩ := ih has hrest
          exact ⟨rfl, huv⟩

/-- Entries between brackets, which stand on one line if there is nothing between them. -/
def enclosed (opening closing : String) (depth : Nat) : List String → String
  | [] => opening ++ closing
  | entries => bracketed opening closing depth entries

theorem toList_newLine (depth : Nat) :
    (newLine depth).toList = '\n' :: List.replicate (2 * depth) ' ' :=
  String.toList_ofList

theorem toList_enclosed_cons (opening closing : String) (depth : Nat) (a : α) (as : List α) :
    (enclosed opening closing depth ((a :: as).map f)).toList =
      opening.toList ++ '\n' :: (List.replicate (2 * (depth + 1)) ' ' ++ ((f a).toList ++
        later f (newLine (depth + 1)).toList (List.replicate (2 * depth) ' ' ++ closing.toList)
          as)) := by
  simp only [enclosed, bracketed, List.map_cons, String.toList_append, toList_intercalate_cons,
    toList_newLine, List.flatMap_map]
  simp [later]

/-- Entries between brackets are readable if each of them is. -/
theorem enclosed_split {opening closing : String} {depth : Nat} {as bs : List α}
    (hclosing : ∃ c cs, closing.toList = c :: cs ∧ c ≠ '\n') (has : ∀ a ∈ as, Readable f a)
    (h : (enclosed opening closing depth (as.map f)).toList ++ u =
      (enclosed opening closing depth (bs.map f)).toList ++ v) : as = bs ∧ u = v := by
  have hempty {w z : List Char} : closing.toList ++ w ≠ '\n' :: z := by
    obtain ⟨c, cs, hcs, hc⟩ := hclosing
    rw [hcs]
    exact fun heq => hc (List.cons.inj heq).1
  have hnil : (enclosed opening closing depth (([] : List α).map f)).toList =
      opening.toList ++ closing.toList := String.toList_append
  cases as with
  | nil =>
      rw [hnil, List.append_assoc] at h
      cases bs with
      | nil =>
          rw [hnil, List.append_assoc] at h
          exact ⟨rfl, List.append_cancel_left (List.append_cancel_left h)⟩
      | cons b bs =>
          rw [toList_enclosed_cons, List.append_assoc] at h
          exact absurd (List.append_cancel_left h) hempty
  | cons a as =>
      rw [toList_enclosed_cons, List.append_assoc] at h
      cases bs with
      | nil =>
          rw [hnil, List.append_assoc] at h
          exact absurd (List.append_cancel_left h).symm hempty
      | cons b bs =>
          rw [toList_enclosed_cons, List.append_assoc] at h
          obtain ⟨ha, has⟩ := List.forall_mem_cons.1 has
          have hentries := (List.cons.inj (List.append_cancel_left h)).2
          simp only [List.append_eq, List.append_assoc] at hentries
          obtain ⟨rfl, hrest⟩ := ha (ends_later as) (ends_later bs)
            (List.append_cancel_left hentries)
          obtain ⟨rfl, huv⟩ := later_split has hrest
          exact ⟨rfl, huv⟩

end

/-! ## Data -/

variable {depth : Nat} {x y : Json}

/-- The text of a field: its name and its data. -/
def writeField (depth : Nat) (field : String × Json) : String :=
  writeString field.1 ++ ": " ++ writeAt depth field.2

theorem writeItems_eq_map (depth : Nat) (xs : List Json) :
    writeItems depth xs = xs.map (writeAt depth) := by
  induction xs with
  | nil => rfl
  | cons x xs ih => rw [writeItems, ih, List.map_cons]

theorem writeFields_eq_map (depth : Nat) (fs : List (String × Json)) :
    writeFields depth fs = fs.map (writeField depth) := by
  induction fs with
  | nil => rfl
  | cons f fs ih => rw [writeFields, ih, List.map_cons, writeField]

theorem writeAt_list (depth : Nat) (xs : List Json) :
    writeAt depth (list xs) = enclosed "[" "]" depth (xs.map (writeAt (depth + 1))) := by
  cases xs with
  | nil => rfl
  | cons x xs => rw [writeAt, writeItems_eq_map]; rfl

theorem writeAt_record (depth : Nat) (fs : List (String × Json)) :
    writeAt depth (record fs) =
      enclosed "\x7b" "\x7d" depth (fs.map (writeField (depth + 1))) := by
  cases fs with
  | nil => rfl
  | cons f fs => rw [writeAt, writeFields_eq_map]; rfl

/-- A field is as readable as its data. -/
theorem readable_writeField {field : String × Json} (h : Readable (writeAt depth) field.2) :
    Readable (writeField depth) field := by
  intro other u v hu hv heq
  simp only [writeField, String.toList_append, List.append_assoc] at heq
  obtain ⟨hname, hrest⟩ := writeString_split heq
  obtain ⟨hdata, huv⟩ := h hu hv (List.append_cancel_left hrest)
  exact ⟨Prod.ext hname hdata, huv⟩

/-- The forms of data. -/
inductive Form where
  | null
  | bool
  | int
  | str
  | list
  | record
  deriving DecidableEq

def form : Json → Form
  | null => .null
  | bool _ => .bool
  | int _ => .int
  | str _ => .str
  | list _ => .list
  | record _ => .record

/-- The form of the data whose text begins with a character. -/
def Form.ofFirst (c : Char) : Form :=
  if c = 'n' then .null
  else if c = 't' ∨ c = 'f' then .bool
  else if c = '"' then .str
  else if c = '[' then .list
  else if c = '\x7b' then .record
  else .int

theorem Form.ofFirst_of_isDigit {c : Char} (h : c.isDigit = true) : ofFirst c = .int :=
  Text.of_ascii (p := fun c => c.isDigit = true → ofFirst c = .int) (by decide +kernel)
    (Text.toNat_lt_of_isDigit h) h

theorem toList_writeAt_bool (depth : Nat) (b : Bool) :
    (writeAt depth (bool b)).toList =
      if b then ['t', 'r', 'u', 'e'] else ['f', 'a', 'l', 's', 'e'] := by
  cases b <;> rw [writeAt] <;> rfl

theorem exists_first (depth : Nat) (x : Json) :
    ∃ c cs, (writeAt depth x).toList = c :: cs ∧ Form.ofFirst c = x.form := by
  cases x with
  | null => exact ⟨'n', ['u', 'l', 'l'], by rw [writeAt]; rfl, rfl⟩
  | bool b =>
      rw [toList_writeAt_bool]
      cases b <;> exact ⟨_, _, rfl, rfl⟩
  | int n =>
      cases n with
      | ofNat n =>
          obtain ⟨c, cs, hcs⟩ := List.exists_cons_of_ne_nil (Nat.toDigits_ne_nil (n := n) (b := 10))
          refine ⟨c, cs, (toList_write_ofNat n).trans hcs, Form.ofFirst_of_isDigit ?_⟩
          exact Nat.isDigit_of_mem_toDigits (by decide) (by decide) (hcs ▸ List.mem_cons_self)
      | negSucc n => exact ⟨'-', _, toList_write_negSucc n, rfl⟩
  | str s => exact ⟨'"', _, toList_writeString s, rfl⟩
  | list xs =>
      rw [writeAt_list]
      cases xs with
      | nil => exact ⟨'[', [']'], by rw [List.map_nil, enclosed]; rfl, rfl⟩
      | cons x xs => exact ⟨'[', _, toList_enclosed_cons "[" "]" depth x xs, rfl⟩
  | record fs =>
      rw [writeAt_record]
      cases fs with
      | nil => exact ⟨'\x7b', ['\x7d'], by rw [List.map_nil, enclosed]; rfl, rfl⟩
      | cons f fs => exact ⟨'\x7b', _, toList_enclosed_cons "\x7b" "\x7d" depth f fs, rfl⟩

theorem form_eq (h : (writeAt depth x).toList ++ u = (writeAt depth y).toList ++ v) :
    x.form = y.form := by
  obtain ⟨c, cs, hcs, hc⟩ := exists_first depth x
  obtain ⟨d, ds, hds, hd⟩ := exists_first depth y
  rw [hcs, hds] at h
  rw [← hc, ← hd, (List.cons.inj h).1]

theorem readable_null : Readable (writeAt depth) null := by
  intro y u v _ _ h
  cases y with
  | null => exact ⟨rfl, List.append_cancel_left h⟩
  | _ => exact Form.noConfusion (form_eq h)

theorem readable_bool (b : Bool) : Readable (writeAt depth) (bool b) := by
  intro y u v _ _ h
  cases y with
  | bool c =>
      rw [toList_writeAt_bool, toList_writeAt_bool] at h
      cases b <;> cases c
      · exact ⟨rfl, List.append_cancel_left h⟩
      · exact absurd (List.cons.inj h).1 (by decide)
      · exact absurd (List.cons.inj h).1 (by decide)
      · exact ⟨rfl, List.append_cancel_left h⟩
  | _ => exact Form.noConfusion (form_eq h)

theorem readable_int (n : Int) : Readable (writeAt depth) (int n) := by
  intro y u v hu hv h
  cases y with
  | int m =>
      obtain ⟨rfl, huv⟩ := number_split hu hv h
      exact ⟨rfl, huv⟩
  | _ => exact Form.noConfusion (form_eq h)

theorem readable_str (s : String) : Readable (writeAt depth) (str s) := by
  intro y u v _ _ h
  cases y with
  | str t =>
      obtain ⟨rfl, huv⟩ := writeString_split h
      exact ⟨rfl, huv⟩
  | _ => exact Form.noConfusion (form_eq h)

theorem readable_list {xs : List Json} (h : ∀ x ∈ xs, Readable (writeAt (depth + 1)) x) :
    Readable (writeAt depth) (list xs) := by
  intro y u v _ _ heq
  cases y with
  | list ys =>
      rw [writeAt_list, writeAt_list] at heq
      obtain ⟨rfl, huv⟩ := enclosed_split ⟨']', [], rfl, by decide⟩ h heq
      exact ⟨rfl, huv⟩
  | _ => exact Form.noConfusion (form_eq heq)

theorem readable_record {fs : List (String × Json)}
    (h : ∀ field ∈ fs, Readable (writeAt (depth + 1)) field.2) :
    Readable (writeAt depth) (record fs) := by
  intro y u v _ _ heq
  cases y with
  | record gs =>
      rw [writeAt_record, writeAt_record] at heq
      obtain ⟨rfl, huv⟩ := enclosed_split ⟨'\x7d', [], rfl, by decide⟩
        (fun field hfield => readable_writeField (h field hfield)) heq
      exact ⟨rfl, huv⟩
  | _ => exact Form.noConfusion (form_eq heq)

/-- The text of data is readable, at any depth. -/
theorem readable_writeAt : ∀ (depth : Nat) (x : Json), Readable (writeAt depth) x
  | _, null => readable_null
  | _, bool b => readable_bool b
  | _, int n => readable_int n
  | _, str s => readable_str s
  | depth, list xs => readable_list fun x _ => readable_writeAt (depth + 1) x
  | depth, record fs => readable_record fun field _ => readable_writeAt (depth + 1) field.2
termination_by _ x => sizeOf x
decreasing_by
  · have hlt := List.sizeOf_lt_of_mem ‹x ∈ xs›
    simp only [list.sizeOf_spec]
    omega
  · have hlt := List.sizeOf_lt_of_mem ‹field ∈ fs›
    obtain ⟨name, x⟩ := field
    simp only [record.sizeOf_spec, Prod.mk.sizeOf_spec] at hlt ⊢
    omega

/-- The text of data determines the data. -/
theorem write_inj (h : x.write = y.write) : x = y :=
  (readable_writeAt 0 x ends_nil ends_nil (congrArg (·.toList ++ []) h)).1

end Json

end FnLang
