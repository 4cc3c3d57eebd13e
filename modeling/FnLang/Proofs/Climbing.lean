/- # FnLang.Proofs.Climbing — what the least priority of an expression decides.

An expression is read as an operand and then continuations, as long as they bind more strongly than a
least priority.  The least priority is looked at in the loop only, and there it decides one thing,
whether to stop.  So to read with a lower one is to read with the higher one first and then to go on
from where that has stopped (`Parse.run_climb_of_ok`); if the higher one fails, the lower one fails in
the same place, because it gets there (`Parse.run_climb_of_error`).

In the tree this is the left spine: whatever the loop adds stands above what it has had before, as its
left operand or its callee (`Parse.Climbs.onSpine`).
-/
import Mathlib.Data.Int.Order.Basic
import Mathlib.Order.MinMax
import FnLang.Proofs.Run

namespace FnLang

/-! ## Left spines -/

/-- `a.OnSpine b`: from `b`, the left operands of binary operators and the callees of calls lead to
`a`. -/
inductive Node.OnSpine (a : Node) : Node → Prop
  | here : OnSpine a a
  | binary {left right : Node} {operator : String} :
      OnSpine a left → OnSpine a (.binary left operator right)
  | call {callee : Node} {as : List Node} : OnSpine a callee → OnSpine a (.call callee as)

theorem Node.OnSpine.trans {a b d : Node} (hab : a.OnSpine b) (hbd : b.OnSpine d) : a.OnSpine d := by
  induction hbd with
  | here => exact hab
  | binary _ ih => exact .binary ih
  | call _ ih => exact .call ih

namespace Parse

/-! ## Folds that go further -/

section

variable {α : Type} {next more : Kind → Option (α → Parse α)} {a b : α} {c d : Cursor}
  {err : ParseError}

/-- A fold that takes all the steps of another one goes on from where the other one stops. -/
theorem run_foldAhead_of_extends_ok (h : ∀ k step, next k = some step → more k = some step)
    (hrun : (foldAhead next a).run c = (.ok b, d)) :
    (foldAhead more a).run c = (foldAhead more b).run d := by
  change runFoldAhead next a c = _ at hrun
  fun_induction runFoldAhead next a c with
  | case1 | case2 =>
      obtain ⟨hb, rfl⟩ := Prod.mk.inj hrun
      obtain rfl := Except.ok.inj hb
      rfl
  | case3 a c step hstep c' hc b' e he ih =>
      rw [run_foldAhead_of_ok (h _ step hstep) hc he]
      exact ih hrun
  | case4 => simp at hrun

/-- A fold that takes all the steps of another one fails where the other one does. -/
theorem run_foldAhead_of_extends_error (h : ∀ k step, next k = some step → more k = some step)
    (hrun : (foldAhead next a).run c = (.error err, d)) :
    (foldAhead more a).run c = (.error err, d) := by
  change runFoldAhead next a c = _ at hrun
  fun_induction runFoldAhead next a c with
  | case1 | case2 => simp at hrun
  | case3 a c step hstep c' hc b' e he ih =>
      rw [run_foldAhead_of_ok (h _ step hstep) hc he]
      exact ih hrun
  | case4 a c step hstep c' hc err' e he =>
      rw [run_foldAhead_of_error (h _ step hstep) hc he]
      exact hrun

end

/-! ## The steps of the loop -/

section

variable {expression : Int → Parse Node} {p q : Int} {a b : Node} {c d : Cursor} {k : Kind}
  {err : ParseError}

/-- The step of the loop that a kind of token begins, if it binds more strongly than `least`. -/
def continuing (expression : Int → Parse Node) (least : Int) (k : Kind) :
    Option (Node → Parse Node) :=
  if least < k.priority.level then
    (continuation? k).map fun x left => x.parse expression left
  else none

theorem climb_eq_foldAhead (expression : Int → Parse Node) (least : Int) (left : Node) :
    climb expression least left = foldAhead (continuing expression least) left := rfl

theorem continuing_eq_some_iff {step : Node → Parse Node} :
    continuing expression p k = some step ↔ p < k.priority.level ∧
      ∃ x, continuation? k = some x ∧ (fun left => x.parse expression left) = step := by
  unfold continuing
  split
  · next hp => rw [Option.map_eq_some_iff, and_iff_right hp]
  · next hp => simp [hp]

/-- A lower least priority allows every step that a higher one does. -/
theorem continuing_extends (hpq : p ≤ q) (k : Kind) (step : Node → Parse Node)
    (h : continuing expression q k = some step) : continuing expression p k = some step := by
  obtain ⟨hq, hx⟩ := continuing_eq_some_iff.1 h
  exact continuing_eq_some_iff.2 ⟨Int.lt_of_le_of_lt hpq hq, hx⟩

theorem continuation?_isSome_iff (k : Kind) :
    (continuation? k).isSome = true ↔ Priority.lowest.level < k.priority.level := by
  rw [Kind.lowest_lt_priority_iff]
  unfold continuation?
  split
  · next hk => simp [hk]
  · next hk =>
      split
      · next hl => simp [hl]
      · next hl => simp [hk, hl]

/-- The loop stops before a token that binds no more strongly than it asks for, or than nothing. -/
theorem level_le_of_continuing_eq_none (h : continuing expression p k = none) :
    k.priority.level ≤ max p Priority.lowest.level := by
  by_contra hlt
  rw [not_le, max_lt_iff, ← continuation?_isSome_iff, Option.isSome_iff_exists] at hlt
  obtain ⟨hp, x, hx⟩ := hlt
  rw [continuing_eq_some_iff.2 ⟨hp, x, hx, rfl⟩] at h
  simp at h

/-- Every continuation binds more strongly than nothing, so below that the least priority does not
matter. -/
theorem continuing_of_le_lowest (hp : p ≤ Priority.lowest.level) :
    continuing expression p = continuing expression Priority.lowest.level := by
  funext k
  apply Option.ext
  intro step
  constructor
  · intro h
    obtain ⟨-, x, hx, hstep⟩ := continuing_eq_some_iff.1 h
    have hsome : (continuation? k).isSome = true := by rw [hx]; rfl
    exact continuing_eq_some_iff.2 ⟨(continuation?_isSome_iff k).1 hsome, x, hx, hstep⟩
  · exact continuing_extends hp k step

/-! ## The loop -/

/-- To read on with a lower least priority is to go on from where the higher one has stopped. -/
theorem run_climb_of_ok (hpq : p ≤ q) (h : (climb expression q a).run c = (.ok b, d)) :
    (climb expression p a).run c = (climb expression p b).run d :=
  run_foldAhead_of_extends_ok (continuing_extends hpq) h

theorem run_climb_of_error (hpq : p ≤ q) (h : (climb expression q a).run c = (.error err, d)) :
    (climb expression p a).run c = (.error err, d) :=
  run_foldAhead_of_extends_error (continuing_extends hpq) h

/-- `Climbs expression least a c b d`: from the cursor `c`, binary operators and argument lists that
bind more strongly than `least` make `b` of the expression `a`, up to the cursor `d`. -/
inductive Climbs (expression : Int → Parse Node) (least : Int) :
    Node → Cursor → Node → Cursor → Prop
  | done {a : Node} {c : Cursor} : Climbs expression least a c a c
  | binary {a b right : Node} {c operator d e : Cursor} : c.advance? = some operator →
      operator.current.kind.isBinaryOperator = true →
      least < operator.current.kind.priority.level →
      (Parse.binary expression a).run operator =
        (.ok (.binary a operator.current.text right), d) →
      Climbs expression least (.binary a operator.current.text right) d b e →
      Climbs expression least a c b e
  | call {a b : Node} {as : List Node} {c opening d e : Cursor} : c.advance? = some opening →
      opening.current.kind = .lparen → least < Priority.call.level →
      (Parse.call expression a).run opening = (.ok (.call a as), d) →
      Climbs expression least (.call a as) d b e → Climbs expression least a c b e

/-- An operator is put over its left operand. -/
theorem exists_eq_of_run_binary (h : (Parse.binary expression a).run c = (.ok b, d)) :
    ∃ right, b = .binary a c.current.text right := by
  unfold Parse.binary at h
  rw [run_bind_ok _ (run_current c)] at h
  obtain ⟨_, _, -, h⟩ := exists_run_of_run_bind h
  obtain ⟨right, _, -, h⟩ := exists_run_of_run_bind h
  exact ⟨right, (Except.ok.inj (Prod.mk.inj h).1).symm⟩

/-- A call is put over its callee. -/
theorem exists_eq_of_run_call (h : (Parse.call expression a).run c = (.ok b, d)) :
    ∃ as, b = .call a as := by
  unfold Parse.call at h
  obtain ⟨as, _, -, h⟩ := exists_run_of_run_bind h
  exact ⟨as, (Except.ok.inj (Prod.mk.inj h).1).symm⟩

/-- A step of the loop, in front of what comes after it. -/
theorem Climbs.step {x : Continuation} {b' : Node} {e f : Cursor}
    (hx : continuation? d.current.kind = some x) (hp : p < d.current.kind.priority.level)
    (hd : c.advance? = some d) (hrun : (x.parse expression a).run d = (.ok b, e))
    (h : Climbs expression p b e b' f) : Climbs expression p a c b' f := by
  unfold continuation? at hx
  split at hx
  · next hk =>
      obtain rfl := Option.some.inj hx
      obtain ⟨right, rfl⟩ := exists_eq_of_run_binary hrun
      exact .binary hd hk hp hrun h
  · split at hx
    · next hk =>
        obtain rfl := Option.some.inj hx
        obtain ⟨as, rfl⟩ := exists_eq_of_run_call hrun
        rw [hk] at hp
        exact .call hd hk hp hrun h
    · simp at hx

/-- The loop climbs to what it gives, and stops before a token that binds no more strongly than it
asks for: by induction on its run. -/
theorem climbs_of_run_climb (h : (climb expression p a).run c = (.ok b, d)) :
    Climbs expression p a c b d ∧
      d.lookahead.kind.priority.level ≤ max p Priority.lowest.level := by
  change runFoldAhead (continuing expression p) a c = _ at h
  fun_induction runFoldAhead (continuing expression p) a c with
  | case1 a c hnone =>
      obtain ⟨hb, rfl⟩ := Prod.mk.inj h
      obtain rfl := Except.ok.inj hb
      exact ⟨.done, level_le_of_continuing_eq_none hnone⟩
  | case2 a c step hstep hc =>
      -- the end of input begins no continuation
      obtain ⟨-, x, hx, -⟩ := continuing_eq_some_iff.1 hstep
      have hnone : continuation? .eof = none := rfl
      rw [Cursor.advance?_eq_none_iff.1 hc, hnone] at hx
      simp at hx
  | case3 a c step hstep o hc b' e he ih =>
      obtain ⟨hp, x, hx, rfl⟩ := continuing_eq_some_iff.1 hstep
      rw [← Cursor.current_of_advance? hc] at hp hx
      obtain ⟨hclimbs, hstops⟩ := ih h
      exact ⟨.step hx hp hc he hclimbs, hstops⟩
  | case4 => simp at h

/-- What the loop has had before stays on the left spine. -/
theorem Climbs.onSpine (h : Climbs expression p a c b d) : a.OnSpine b := by
  induction h with
  | done => exact .here
  | binary _ _ _ _ _ ih => exact (Node.OnSpine.binary .here).trans ih
  | call _ _ _ _ _ ih => exact (Node.OnSpine.call .here).trans ih

end

/-! ## Expressions -/

section

variable {n : Nat} {p q : Int} {e : Node} {c d : Cursor} {err : ParseError}

/-- An expression that is read is an operand from which the loop gets there. -/
theorem exists_operand_of_run_expression (h : (expression n p).run c = (.ok e, d)) :
    ∃ left c', (operand (expression (n - 1))).run c = (.ok left, c') ∧
      ∀ q, (expression n q).run c = (climb (expression (n - 1)) q left).run c' := by
  cases n with
  | zero => simp at h
  | succ n =>
      obtain ⟨left, c', hleft, -⟩ := exists_run_of_run_bind h
      exact ⟨left, c', hleft, fun q => run_bind_ok _ hleft⟩

theorem run_expression_of_error (hpq : p ≤ q) (h : (expression n q).run c = (.error err, d)) :
    (expression n p).run c = (.error err, d) := by
  cases n with
  | zero => exact h
  | succ n =>
      cases hleft : (operand (expression n)).run c with
      | mk r c' =>
          cases r with
          | error err' =>
              rw [expression, run_bind_error _ hleft] at h ⊢
              exact h
          | ok left =>
              rw [expression, run_bind_ok _ hleft] at h ⊢
              exact run_climb_of_error hpq h

theorem run_expression_of_ok (hpq : p ≤ q) (h : (expression n q).run c = (.ok e, d)) :
    (expression n p).run c = (climb (expression (n - 1)) p e).run d := by
  obtain ⟨left, c', -, hclimb⟩ := exists_operand_of_run_expression h
  rw [hclimb] at h ⊢
  exact run_climb_of_ok hpq h

theorem expression_of_le_lowest (n : Nat) (hp : p ≤ Priority.lowest.level) :
    expression n p = expression n Priority.lowest.level := by
  cases n with
  | zero => rfl
  | succ n =>
      simp only [expression, climb_eq_foldAhead, continuing_of_le_lowest hp]

end

end Parse

open Parse

/-- Reading is monotone in the least priority.  If reading with the higher one fails, reading with the
lower one fails with the same error and leaves the same cursor.  If the higher one gives an expression,
the lower one does what the loop does that goes on from there, so all it can give has that expression
on its left spine.

An expression that is read ends before a token that binds no more strongly than the least priority, or
than nothing at all, as a semicolon does; and all binary operators and calls above its first operand
bind more strongly than the least priority.  Below the lowest priority of all there is no difference. -/
theorem expression_mono (n : Nat) (c : Cursor) :
    (∀ p q, p ≤ q →
      (∀ err d, (Parse.expression n q).run c = (.error err, d) →
        (Parse.expression n p).run c = (.error err, d)) ∧
      ∀ e d, (Parse.expression n q).run c = (.ok e, d) →
        (Parse.expression n p).run c = (climb (Parse.expression (n - 1)) p e).run d ∧
        ∀ e' d', (Parse.expression n p).run c = (.ok e', d') → e.OnSpine e') ∧
    (∀ p e d, (Parse.expression n p).run c = (.ok e, d) →
      d.lookahead.kind.priority.level ≤ max p Priority.lowest.level ∧
      ∃ left c', (operand (Parse.expression (n - 1))).run c = (.ok left, c') ∧
        Climbs (Parse.expression (n - 1)) p left c' e d) ∧
    ∀ p, p ≤ Priority.lowest.level →
      (Parse.expression n p).run c = (Parse.expression n Priority.lowest.level).run c := by
  refine ⟨fun p q hpq => ⟨fun err d h => run_expression_of_error hpq h, fun e d h => ?_⟩,
    fun p e d h => ?_, fun p hp => by rw [expression_of_le_lowest n hp]⟩
  · have hresumes := run_expression_of_ok hpq h
    refine ⟨hresumes, fun e' d' h' => ?_⟩
    rw [hresumes] at h'
    exact (climbs_of_run_climb h').1.onSpine
  · obtain ⟨left, c', hleft, hclimb⟩ := exists_operand_of_run_expression h
    rw [hclimb] at h
    obtain ⟨hclimbs, hstops⟩ := climbs_of_run_climb h
    exact ⟨hstops, left, c', hleft, hclimbs⟩

end FnLang
