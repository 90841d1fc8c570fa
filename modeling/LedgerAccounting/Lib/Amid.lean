/-
  File:      LedgerAccounting/Lib/Amid.lean
  Subject:   A script amid surroundings that go on by themselves: between two of its operations
             the surroundings may make any number of steps.

  * `amid_sound`: a script that is proved under a rely keeps the invariant in every configuration
    that is reached, ended or not, if the surroundings stay within the rely.
  * `Triple.amid`: what it returns meets its postcondition.
  * `amid_schedule`: the configuration an executable schedule ends in is reached.
-/
import LedgerAccounting.Lib.Script

namespace Script

variable {Op : Type} {Reply : Op → Type} {σ κ α : Type}

/-! ## 1. Steps -/

section Steps

variable (Env : σ → σ → Prop) (E : (o : Op) → σ → Reply o → σ → Prop)

/-- The surroundings make a step, or the script issues its next operation. -/
inductive Amid : σ × Script Op Reply α → σ × Script Op Reply α → Prop where
  | surround (s s' : σ) (p : Script Op Reply α) (step : Env s s') : Amid (s, p) (s', p)
  | issue (o : Op) (k : Reply o → Script Op Reply α) (r : Reply o) (s s' : σ)
      (exec : E o s r s') : Amid (s, call o k) (s', k r)

/-- The state and what is left of the script, in any order of steps. -/
def AmidReach : σ × Script Op Reply α → σ × Script Op Reply α → Prop :=
  Relation.ReflTransGen (Amid Env E)

variable {Env E}

/-- **A script that is proved under a rely keeps the invariant**, from its first operation on, if
    the surroundings keep it too and stay within the rely. -/
theorem amid_sound {R : σ → σ → Prop} {Inv : σ → Prop} {Q : α → σ → Prop} (hrefl : ∀ s, R s s)
    (htrans : ∀ s t u, R s t → R t u → R s u)
    (hsurround : ∀ s s', Inv s → Env s s' → R s s' ∧ Inv s')
    {c c' : σ × Script Op Reply α} (hI : Inv c.1) (h : Holds R Inv E Q c.2 c.1)
    (hr : AmidReach Env E c c') : Inv c'.1 ∧ Holds R Inv E Q c'.2 c'.1 := by
  induction hr with
  | refl => exact ⟨hI, h⟩
  | tail _ hstep ih =>
    obtain ⟨hI, h⟩ := ih
    cases hstep with
    | surround s s' p step =>
      obtain ⟨hR, hI'⟩ := hsurround s s' hI step
      exact ⟨hI', h.env htrans hR⟩
    | issue o k r s s' exec => exact h s (hrefl s) hI r s' exec

/-- What the script returns meets its postcondition. -/
theorem Triple.amid {R : σ → σ → Prop} {Inv : σ → Prop} {P : σ → Prop} {Q : α → σ → Prop}
    {p : Script Op Reply α} (h : Triple R Inv E P p Q) (hrefl : ∀ s, R s s)
    (htrans : ∀ s t u, R s t → R t u → R s u)
    (hsurround : ∀ s s', Inv s → Env s s' → R s s' ∧ Inv s') {s s' : σ} {a : α} (hI : Inv s)
    (hP : P s) (hr : AmidReach Env E (s, p) (s', Script.ret a)) : Inv s' ∧ Q a s' := by
  obtain ⟨hI', hret⟩ := amid_sound hrefl htrans hsurround hI (h s hP) hr
  exact ⟨hI', hret s' (hrefl s')⟩

end Steps

/-! ## 2. Executable schedules -/

section Schedule

variable (advance : κ → σ → σ) (exec : (o : Op) → σ → Option (Reply o × σ))

/-- One move: the surroundings advance, or the script issues its next operation. -/
def moveAmid (c : σ × Script Op Reply α) : Option κ → σ × Script Op Reply α
  | some m => (advance m c.1, c.2)
  | none =>
    match c.2 with
    | ret _ => c
    | call o k =>
      match exec o c.1 with
      | none => c
      | some (r, s) => (s, k r)

def runAmid (schedule : List (Option κ)) (c : σ × Script Op Reply α) : σ × Script Op Reply α :=
  schedule.foldl (moveAmid advance exec) c

variable {advance exec} {Env : σ → σ → Prop} {E : (o : Op) → σ → Reply o → σ → Prop}

/-- Steps of the surroundings alone. -/
theorem amid_surroundings {s s' : σ} (h : Relation.ReflTransGen Env s s')
    (p : Script Op Reply α) : AmidReach Env E (s, p) (s', p) := by
  induction h with
  | refl => exact .refl
  | tail _ hstep ih => exact ih.tail (.surround _ _ p hstep)

theorem amid_move (hadvance : ∀ m s, Relation.ReflTransGen Env s (advance m s))
    (hexec : ∀ o s r s', exec o s = some (r, s') → E o s r s') (c : σ × Script Op Reply α)
    (move : Option κ) : AmidReach Env E c (moveAmid advance exec c move) := by
  obtain ⟨s, p⟩ := c
  cases move with
  | some m => exact amid_surroundings (hadvance m s) p
  | none =>
    cases p with
    | ret a => exact .refl
    | call o k =>
      simp only [moveAmid]
      split
      · exact .refl
      · rename_i r s' hs
        exact .single (.issue o k r s s' (hexec o s r s' hs))

theorem ret_of_result {p : Script Op Reply α} {a : α} (h : p.result = some a) :
    p = Script.ret a := by
  cases p with
  | ret b =>
    cases h
    rfl
  | call o k => cases h

/-- **The configuration a schedule ends in is reached.** -/
theorem amid_schedule (hadvance : ∀ m s, Relation.ReflTransGen Env s (advance m s))
    (hexec : ∀ o s r s', exec o s = some (r, s') → E o s r s') (schedule : List (Option κ))
    (c : σ × Script Op Reply α) : AmidReach Env E c (runAmid advance exec schedule c) := by
  induction schedule generalizing c with
  | nil => exact .refl
  | cons move schedule ih => exact (amid_move hadvance hexec c move).trans (ih _)

end Schedule

end Script
