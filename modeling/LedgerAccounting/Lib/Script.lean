/-
  File:      LedgerAccounting/Lib/Script.lean
  Subject:   Scripts that issue operations on a shared state and branch on the replies, their
             interleavings, and a rely rule for proving a script against every environment.

  A thread of an interleaving runs a script; one step lets one thread issue its next operation.
  What an operation does is a relation, so it may fail, wait (have no step) or choose.

  * `Triple`: a script, run from a state that meets the precondition, keeps the invariant and ends
    in a state that meets the postcondition, whatever the other threads do within the rely.
  * `interleaving_sound`: scripts that are proved one by one hold together in every interleaving.
  * `reach_runSchedule`: the state an executable schedule ends in is reachable.
-/
import Mathlib.Logic.Relation
import Mathlib.Logic.Function.Basic

/-- A program that issues an operation and goes on with its reply, or ends. -/
inductive Script (Op : Type) (Reply : Op → Type) (α : Type) where
  | ret (a : α)
  | call (o : Op) (k : Reply o → Script Op Reply α)

namespace Script

variable {Op : Type} {Reply : Op → Type} {α β ε : Type}

/-! ## 1. Scripts as a monad -/

protected def bind : Script Op Reply α → (α → Script Op Reply β) → Script Op Reply β
  | ret a, f => f a
  | call o k, f => call o fun r => (k r).bind f

instance : Monad (Script Op Reply) where
  pure := ret
  bind := Script.bind

/-- Issue one operation and return its reply. -/
def perform (o : Op) : Script Op Reply (Reply o) := call o ret

/-- What a script that has ended returned. -/
def result : Script Op Reply α → Option α
  | ret a => some a
  | call _ _ => none

/-! ## 2. Interleavings -/

section Interleaving

variable {σ ι : Type}

structure Config (σ ι : Type) (Op : Type) (Reply : Op → Type) (α : Type) where
  state : σ
  threads : ι → Script Op Reply α

variable [DecidableEq ι] (Exec : ι → (o : Op) → σ → Reply o → σ → Prop)

/-- One thread issues its next operation. -/
inductive Step (c : Config σ ι Op Reply α) : Config σ ι Op Reply α → Prop where
  | issue (i : ι) (o : Op) (k : Reply o → Script Op Reply α) (r : Reply o) (s : σ)
      (next : c.threads i = call o k) (exec : Exec i o c.state r s) :
      Step c ⟨s, Function.update c.threads i (k r)⟩

/-- The configurations the threads can reach, in any order of steps. -/
def Reach : Config σ ι Op Reply α → Config σ ι Op Reply α → Prop :=
  Relation.ReflTransGen (Step Exec)

variable (exec : ι → (o : Op) → σ → Option (Reply o × σ))

/-- Let thread `i` issue its next operation; nothing happens when it has ended or must wait. -/
def stepThread (i : ι) (c : Config σ ι Op Reply α) : Config σ ι Op Reply α :=
  match c.threads i with
  | ret _ => c
  | call o k =>
    match exec i o c.state with
    | none => c
    | some (r, s) => ⟨s, Function.update c.threads i (k r)⟩

/-- Let the threads take turns in the given order. -/
def runSchedule (schedule : List ι) (c : Config σ ι Op Reply α) : Config σ ι Op Reply α :=
  schedule.foldl (fun c i => stepThread exec i c) c

variable {Exec exec}

theorem reach_stepThread (hexec : ∀ i o s r s', exec i o s = some (r, s') → Exec i o s r s')
    (i : ι) (c : Config σ ι Op Reply α) : Reach Exec c (stepThread exec i c) := by
  unfold stepThread
  split
  · exact .refl
  · rename_i o k hnext
    split
    · exact .refl
    · rename_i r s hs
      exact .single (.issue i o k r s hnext (hexec i o _ r s hs))

/-- **The configuration a schedule ends in is reachable.** -/
theorem reach_runSchedule (hexec : ∀ i o s r s', exec i o s = some (r, s') → Exec i o s r s')
    (schedule : List ι) (c : Config σ ι Op Reply α) :
    Reach Exec c (runSchedule exec schedule c) := by
  induction schedule generalizing c with
  | nil => exact .refl
  | cons i schedule ih => exact (reach_stepThread hexec i c).trans (ih _)

end Interleaving

/-! ## 3. What a script guarantees in an environment -/

section Rely

variable {σ : Type} (R : σ → σ → Prop) (Inv : σ → Prop) (E : (o : Op) → σ → Reply o → σ → Prop)

/-- From the state on, under steps of the environment within `R`, every operation the script issues
    keeps `Inv`, and it ends with a result that meets `Q`. -/
def Holds (Q : α → σ → Prop) : Script Op Reply α → σ → Prop
  | ret a, s => ∀ s', R s s' → Q a s'
  | call o k, s => ∀ s', R s s' → Inv s' → ∀ r s'', E o s' r s'' → Inv s'' ∧ Holds Q (k r) s''

/-- The environment keeps `P`. -/
def Stable (P : σ → Prop) : Prop := ∀ s s', P s → R s s' → P s'

def Triple (P : σ → Prop) (p : Script Op Reply α) (Q : α → σ → Prop) : Prop :=
  ∀ s, P s → Holds R Inv E Q p s

/-- A triple for a script that may stop with an error: its postcondition speaks of success. -/
def TripleOk (P : σ → Prop) (p : ExceptT ε (Script Op Reply) α) (Q : α → σ → Prop) : Prop :=
  Triple R Inv E P p.run fun r s => ∀ a, r = .ok a → Q a s

variable {R Inv E}

theorem Stable.and {P P' : σ → Prop} (h : Stable R P) (h' : Stable R P') :
    Stable R fun s => P s ∧ P' s :=
  fun s s' hs hR => ⟨h s s' hs.1 hR, h' s s' hs.2 hR⟩

theorem Stable.const (p : Prop) : Stable R fun _ => p := fun _ _ h _ => h

theorem Holds.env (htrans : ∀ s t u, R s t → R t u → R s u) {Q : α → σ → Prop}
    {p : Script Op Reply α} {s s' : σ} (h : Holds R Inv E Q p s) (hR : R s s') :
    Holds R Inv E Q p s' := by
  cases p with
  | ret a => exact fun t ht => h t (htrans _ _ _ hR ht)
  | call o k => exact fun t ht => h t (htrans _ _ _ hR ht)

theorem Holds.imp {Q Q' : α → σ → Prop} (hQ : ∀ a s, Q a s → Q' a s) {p : Script Op Reply α} {s : σ}
    (h : Holds R Inv E Q p s) : Holds R Inv E Q' p s := by
  induction p generalizing s with
  | ret a => exact fun t ht => hQ a t (h t ht)
  | call o k ih =>
    intro t ht hI r u hu
    obtain ⟨hI', hk⟩ := h t ht hI r u hu
    exact ⟨hI', ih r hk⟩

theorem Holds.bind (hrefl : ∀ s, R s s) {M : α → σ → Prop} {Q : β → σ → Prop}
    {p : Script Op Reply α} {f : α → Script Op Reply β} {s : σ} (h : Holds R Inv E M p s)
    (hf : ∀ a s, M a s → Holds R Inv E Q (f a) s) : Holds R Inv E Q (p.bind f) s := by
  induction p generalizing s with
  | ret a => exact hf a s (h s (hrefl s))
  | call o k ih =>
    intro t ht hI r u hu
    obtain ⟨hI', hk⟩ := h t ht hI r u hu
    exact ⟨hI', ih r hk⟩

/-! ### Rules -/

theorem Triple.ret {P : σ → Prop} {Q : α → σ → Prop} (a : α)
    (h : ∀ s s', P s → R s s' → Q a s') : Triple R Inv E P (Script.ret a) Q :=
  fun s hs s' hR => h s s' hs hR

theorem Triple.imp {P P' : σ → Prop} {Q Q' : α → σ → Prop} {p : Script Op Reply α}
    (h : Triple R Inv E P p Q) (hP : ∀ s, P' s → P s) (hQ : ∀ a s, Q a s → Q' a s) :
    Triple R Inv E P' p Q' :=
  fun s hs => (h s (hP s hs)).imp hQ

theorem Triple.bind (hrefl : ∀ s, R s s) {P : σ → Prop} {M : α → σ → Prop} {Q : β → σ → Prop}
    {p : Script Op Reply α} {f : α → Script Op Reply β} (h : Triple R Inv E P p M)
    (hf : ∀ a, Triple R Inv E (M a) (f a) Q) : Triple R Inv E P (p >>= f) Q :=
  fun s hs => (h s hs).bind hrefl fun a t ht => hf a t ht

/-- One operation: the environment keeps what is known before it and what is learnt from it, and
    its own step keeps the invariant. -/
theorem Triple.perform {P : σ → Prop} {o : Op} {Q : Reply o → σ → Prop} (hP : Stable R P)
    (hstep : ∀ s r s', P s → Inv s → E o s r s' → Inv s' ∧ Q r s') (hQ : ∀ r, Stable R (Q r)) :
    Triple R Inv E P (Script.perform o) Q := by
  intro s hs t ht hI r u hu
  obtain ⟨hI', hq⟩ := hstep t r u (hP s t hs ht) hI hu
  exact ⟨hI', fun v hv => hQ r u v hq hv⟩

/-- What a script that has ended guarantees. -/
theorem Holds.result {Q : α → σ → Prop} (hrefl : ∀ s, R s s) {p : Script Op Reply α} {a : α} {s : σ}
    (h : Holds R Inv E Q p s) (ha : p.result = some a) : Q a s := by
  cases p with
  | ret b =>
    cases ha
    exact h s (hrefl s)
  | call o k => cases ha

/-! ### Scripts that stop at the first error -/

theorem TripleOk.pure {P : σ → Prop} {Q : α → σ → Prop} (a : α)
    (h : ∀ s s', P s → R s s' → Q a s') :
    TripleOk R Inv E P (pure a : ExceptT ε (Script Op Reply) α) Q :=
  Triple.ret _ fun s s' hs hR b hb => by
    cases hb
    exact h s s' hs hR

theorem TripleOk.throw {P : σ → Prop} {Q : α → σ → Prop} (e : ε) :
    TripleOk R Inv E P (throw e : ExceptT ε (Script Op Reply) α) Q :=
  Triple.ret _ fun _ _ _ _ b hb => by cases hb

theorem TripleOk.imp {P P' : σ → Prop} {Q Q' : α → σ → Prop} {p : ExceptT ε (Script Op Reply) α}
    (h : TripleOk R Inv E P p Q) (hP : ∀ s, P' s → P s) (hQ : ∀ a s, Q a s → Q' a s) :
    TripleOk R Inv E P' p Q' :=
  Triple.imp h hP fun _ s hs a ha => hQ a s (hs a ha)

theorem TripleOk.bind (hrefl : ∀ s, R s s) {P : σ → Prop} {M : α → σ → Prop} {Q : β → σ → Prop}
    {p : ExceptT ε (Script Op Reply) α} {f : α → ExceptT ε (Script Op Reply) β}
    (h : TripleOk R Inv E P p M) (hf : ∀ a, TripleOk R Inv E (M a) (f a) Q) :
    TripleOk R Inv E P (p >>= f) Q := by
  refine Triple.bind hrefl h fun r => ?_
  cases r with
  | error e => exact Triple.ret _ fun _ _ _ _ b hb => by cases hb
  | ok a => exact (hf a).imp (fun s hs => hs a rfl) fun _ _ hs => hs

/-- A script that may stop with an error, and what is known of its errors as well. -/
theorem Triple.run_bind (hrefl : ∀ s, R s s) {P : σ → Prop} {M : Except ε α → σ → Prop}
    {Q : Except ε β → σ → Prop} {p : ExceptT ε (Script Op Reply) α}
    {f : α → ExceptT ε (Script Op Reply) β} (h : Triple R Inv E P p.run M)
    (hok : ∀ a, Triple R Inv E (M (.ok a)) (f a).run Q)
    (herr : ∀ e s s', M (.error e) s → R s s' → Q (.error e) s') :
    Triple R Inv E P (p >>= f).run Q := by
  refine Triple.bind hrefl h fun r => ?_
  cases r with
  | error e => exact Triple.ret _ (herr e)
  | ok a => exact hok a

/-- A loop of scripts that all keep `P` keeps `P`. -/
theorem TripleOk.forM (hrefl : ∀ s, R s s) {P : σ → Prop} (hP : Stable R P) {γ : Type}
    {f : γ → ExceptT ε (Script Op Reply) PUnit} {l : List γ}
    (h : ∀ x ∈ l, TripleOk R Inv E P (f x) fun _ => P) :
    TripleOk R Inv E P (l.forM f) fun _ => P := by
  induction l with
  | nil => exact TripleOk.pure _ hP
  | cons x l ih =>
    rw [List.forall_mem_cons] at h
    exact TripleOk.bind hrefl h.1 fun _ => ih h.2

/-! ### Interleavings of proved scripts -/

/-- **Scripts that are proved one by one hold together in every interleaving**, if every step of a
    thread lies within the rely of every other thread. -/
theorem interleaving_sound {ι : Type} [DecidableEq ι] {Exec : ι → (o : Op) → σ → Reply o → σ → Prop}
    {R : ι → σ → σ → Prop} {Q : ι → α → σ → Prop} (hrefl : ∀ i s, R i s s)
    (htrans : ∀ i s t u, R i s t → R i t u → R i s u)
    (hframe : ∀ i j, i ≠ j → ∀ o s r s', Exec i o s r s' → R j s s') {c c' : Config σ ι Op Reply α}
    (hI : Inv c.state) (h : ∀ i, Holds (R i) Inv (Exec i) (Q i) (c.threads i) c.state)
    (hr : Reach Exec c c') :
    Inv c'.state ∧ ∀ i, Holds (R i) Inv (Exec i) (Q i) (c'.threads i) c'.state := by
  induction hr with
  | refl => exact ⟨hI, h⟩
  | tail _ hstep ih =>
    obtain ⟨hI, h⟩ := ih
    cases hstep with
    | issue i o k r s next exec =>
      have hi := h i
      rw [next] at hi
      obtain ⟨hI', hk⟩ := hi _ (hrefl i _) hI r s exec
      refine ⟨hI', fun j => ?_⟩
      by_cases hj : j = i
      · subst hj
        simpa using hk
      · have hrest := (h j).env (htrans j) (hframe i j (Ne.symm hj) o _ r s exec)
        simpa [Function.update_of_ne hj] using hrest

end Rely

end Script
