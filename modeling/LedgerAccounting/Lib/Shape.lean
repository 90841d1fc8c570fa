/-
  File:      LedgerAccounting/Lib/Shape.lean
  Subject:   The operations a script issues whatever the replies: scripts that issue only some
             operations, and scripts that issue only these until they come to a given point.

  * `Only.bind`, `Only.ok_bind`: a sequence issues only what its parts issue.
  * `Until.after`, `Until.ok_after`: a first part that issues only harmless operations comes before
    the point that the rest comes to.
  * `Until.next`: what a script does next is harmless, or the script has come to the point.
-/
import LedgerAccounting.Lib.Script

namespace Script

variable {Op : Type} {Reply : Op → Type} {α β γ ε : Type} {good : Op → Prop}

/-! ## 1. Scripts that issue only some operations -/

/-- Every operation of the script meets `good`, whatever the replies before it. -/
inductive Only (good : Op → Prop) : Script Op Reply α → Prop where
  | ret (a : α) : Only good (ret a)
  | call {o : Op} {k : Reply o → Script Op Reply α} (first : good o)
      (rest : ∀ r, Only good (k r)) : Only good (call o k)

theorem only_perform {o : Op} (h : good o) : Only good (perform o : Script Op Reply (Reply o)) :=
  .call h fun r => .ret r

theorem Only.bind {p : Script Op Reply α} {f : α → Script Op Reply β} (hp : Only good p)
    (hf : ∀ a, Only good (f a)) : Only good (p >>= f) := by
  induction hp with
  | ret a => exact hf a
  | call first _ ih => exact .call first ih

theorem Only.ok_bind {p : ExceptT ε (Script Op Reply) α} {f : α → ExceptT ε (Script Op Reply) β}
    (hp : Only good p.run) (hf : ∀ a, Only good (f a).run) : Only good (p >>= f).run := by
  refine Only.bind hp fun x => ?_
  cases x with
  | error e => exact .ret _
  | ok a => exact hf a

theorem only_forM {f : γ → ExceptT ε (Script Op Reply) PUnit} (hf : ∀ x, Only good (f x).run)
    (l : List γ) : Only good (l.forM f).run := by
  induction l with
  | nil => exact .ret _
  | cons x l ih => exact Only.ok_bind (hf x) fun _ => ih

/-! ## 2. Scripts that come to a point -/

/-- The script issues only operations that meet `good` until it ends or is at a `point`. -/
inductive Until (good : Op → Prop) (point : Script Op Reply α → Prop) :
    Script Op Reply α → Prop where
  | ret (a : α) : Until good point (ret a)
  | call {o : Op} {k : Reply o → Script Op Reply α} (first : good o)
      (rest : ∀ r, Until good point (k r)) : Until good point (call o k)
  | arrived {p : Script Op Reply α} (there : point p) : Until good point p

variable {point : Script Op Reply β → Prop}

theorem Only.until {p : Script Op Reply β} (hp : Only good p) : Until good point p := by
  induction hp with
  | ret a => exact .ret a
  | call first _ ih => exact .call first ih

/-- **What comes before the point may be put before the script.** -/
theorem Until.after {p : Script Op Reply α} {f : α → Script Op Reply β} (hp : Only good p)
    (hf : ∀ a, Until good point (f a)) : Until good point (p >>= f) := by
  induction hp with
  | ret a => exact hf a
  | call first _ ih => exact .call first ih

theorem Until.ok_after {point : Script Op Reply (Except ε β) → Prop}
    {p : ExceptT ε (Script Op Reply) α} {f : α → ExceptT ε (Script Op Reply) β}
    (hp : Only good p.run) (hf : ∀ a, Until good point (f a).run) :
    Until good point (p >>= f).run := by
  refine Until.after hp fun x => ?_
  cases x with
  | error e => exact .ret _
  | ok a => exact hf a

/-- **The next operation is harmless, or the script is at the point.** -/
theorem Until.next {o : Op} {k : Reply o → Script Op Reply β}
    (h : Until good point (Script.call o k)) :
    (good o ∧ ∀ r, Until good point (k r)) ∨ point (Script.call o k) := by
  cases h with
  | call first rest => exact Or.inl ⟨first, rest⟩
  | arrived there => exact Or.inr there

end Script
