/-
  File:      LedgerAccounting/Lib/Alone.lean
  Subject:   Scripts that run alone, from their first operation to their end: what a run can do,
             read back from the way the script is put together.

  * `ran_bind_iff`, `ran_ok_bind_iff`: a run of a sequence is a run of its first part and a run of
    what follows.
  * `ran_forM_reads`: a loop of reads answers as the loop of what the reads answer.
  * `Ran.keeps`: what every operation keeps, a run keeps.
  * `Ran.reach`: a thread that runs alone is an interleaving.
  * `Returns.bind`, `Returns.ok_bind`: a sequence returns when its parts do.
  * `ran_runAlone`: the result of the executable run is the result of a run.
  * `runWith_bind`, `runWith_ok_bind`: the run of a sequence on operations that always answer.
  * `ran_runWith`: such a run, seen from states that mirror the simpler ones.
-/
import LedgerAccounting.Lib.Script

namespace Script

variable {Op : Type} {Reply : Op → Type} {σ α β γ ε : Type}

/-- The script, run alone from the first state, may return the value and leave the second state. -/
inductive Ran (E : (o : Op) → σ → Reply o → σ → Prop) :
    Script Op Reply α → σ → α → σ → Prop where
  | ret (a : α) (s : σ) : Ran E (ret a) s a s
  | call {o : Op} {k : Reply o → Script Op Reply α} {r : Reply o} {s t u : σ} {a : α}
      (exec : E o s r t) (rest : Ran E (k r) t a u) : Ran E (call o k) s a u

variable {E : (o : Op) → σ → Reply o → σ → Prop}

/-! ## 1. Reading a run back -/

theorem ran_ret_iff {a b : α} {s t : σ} : Ran E (ret a) s b t ↔ b = a ∧ t = s := by
  constructor
  · intro h
    cases h
    exact ⟨rfl, rfl⟩
  · intro h
    obtain ⟨rfl, rfl⟩ := h
    exact .ret _ _

theorem ran_call_iff {o : Op} {k : Reply o → Script Op Reply α} {s u : σ} {a : α} :
    Ran E (call o k) s a u ↔ ∃ r t, E o s r t ∧ Ran E (k r) t a u := by
  constructor
  · intro h
    cases h with
    | call exec rest => exact ⟨_, _, exec, rest⟩
  · intro h
    obtain ⟨r, t, exec, rest⟩ := h
    exact .call exec rest

theorem ran_perform_iff {o : Op} {r : Reply o} {s t : σ} : Ran E (perform o) s r t ↔ E o s r t := by
  unfold perform
  rw [ran_call_iff]
  constructor
  · intro h
    obtain ⟨r', t', exec, rest⟩ := h
    obtain ⟨rfl, rfl⟩ := ran_ret_iff.mp rest
    exact exec
  · intro h
    exact ⟨r, t, h, .ret _ _⟩

/-- **A run of a sequence is a run of its first part and a run of what follows.** -/
theorem ran_bind_iff {p : Script Op Reply α} {f : α → Script Op Reply β} {s u : σ} {b : β} :
    Ran E (p >>= f) s b u ↔ ∃ a t, Ran E p s a t ∧ Ran E (f a) t b u := by
  induction p generalizing s with
  | ret a =>
    constructor
    · intro h
      exact ⟨a, s, .ret _ _, h⟩
    · intro h
      obtain ⟨a', t, hret, hf⟩ := h
      obtain ⟨rfl, rfl⟩ := ran_ret_iff.mp hret
      exact hf
  | call o k ih =>
    have hcall : Ran E (Script.call o k >>= f) s b u ↔
        ∃ r t, E o s r t ∧ Ran E (k r >>= f) t b u := ran_call_iff
    rw [hcall]
    constructor
    · intro h
      obtain ⟨r, t, exec, rest⟩ := h
      obtain ⟨a, v, hk, hf⟩ := (ih r).mp rest
      exact ⟨a, v, .call exec hk, hf⟩
    · intro h
      obtain ⟨a, v, hp, hf⟩ := h
      obtain ⟨r, t, exec, hk⟩ := ran_call_iff.mp hp
      exact ⟨r, t, exec, (ih r).mpr ⟨a, v, hk, hf⟩⟩

/-! ## 2. Scripts that stop at the first error -/

theorem ran_ok_pure_iff {a : α} {r : Except ε α} {s t : σ} :
    Ran E (pure a : ExceptT ε (Script Op Reply) α).run s r t ↔ r = .ok a ∧ t = s := ran_ret_iff

theorem ran_ok_throw_iff {e : ε} {r : Except ε α} {s t : σ} :
    Ran E (throw e : ExceptT ε (Script Op Reply) α).run s r t ↔ r = .error e ∧ t = s := ran_ret_iff

/-- A sequence stops with the error of its first part, or goes on with its value. -/
theorem ran_ok_bind_iff {p : ExceptT ε (Script Op Reply) α}
    {f : α → ExceptT ε (Script Op Reply) β} {s u : σ} {r : Except ε β} :
    Ran E (p >>= f).run s r u ↔
      (∃ e, Ran E p.run s (.error e) u ∧ r = .error e) ∨
        ∃ a t, Ran E p.run s (.ok a) t ∧ Ran E (f a).run t r u := by
  have hbind : Ran E (p >>= f).run s r u ↔
      ∃ x t, Ran E p.run s x t ∧ Ran E (ExceptT.bindCont f x) t r u := ran_bind_iff
  rw [hbind]
  constructor
  · intro h
    obtain ⟨x, t, hp, hf⟩ := h
    cases x with
    | error e =>
      obtain ⟨rfl, rfl⟩ := ran_ret_iff.mp hf
      exact Or.inl ⟨e, hp, rfl⟩
    | ok a => exact Or.inr ⟨a, t, hp, hf⟩
  · intro h
    rcases h with ⟨e, hp, rfl⟩ | ⟨a, t, hp, hf⟩
    · exact ⟨.error e, u, hp, .ret _ _⟩
    · exact ⟨.ok a, t, hp, hf⟩

/-- **A sequence goes on with what its first part answers, or stops where that stops.** -/
theorem ran_ok_bind_cases {p : ExceptT ε (Script Op Reply) α}
    {f : α → ExceptT ε (Script Op Reply) β} {s u : σ} {r : Except ε β} {K : α → σ → Prop}
    {bad : Prop} {M : σ → Prop}
    (hp : ∀ x t, Ran E p.run s x t →
      (∃ a, x = .ok a ∧ K a t) ∨ bad ∧ (∃ e, x = .error e) ∧ M t)
    (h : Ran E (p >>= f).run s r u) :
    (∃ a t, K a t ∧ Ran E (f a).run t r u) ∨ bad ∧ (∃ e, r = .error e) ∧ M u := by
  rcases ran_ok_bind_iff.mp h with ⟨e, hfirst, rfl⟩ | ⟨a, t, hfirst, hrest⟩
  · rcases hp _ _ hfirst with ⟨a, hok, _⟩ | ⟨hbad, _, hstate⟩
    · cases hok
    · exact Or.inr ⟨hbad, ⟨e, rfl⟩, hstate⟩
  · rcases hp _ _ hfirst with ⟨b, hok, hK⟩ | ⟨_, ⟨e, herr⟩, _⟩
    · cases hok
      exact Or.inl ⟨a, t, hK, hrest⟩
    · cases herr

/-- ... where its first part has one answer. -/
theorem ran_ok_bind_next {p : ExceptT ε (Script Op Reply) α}
    {f : α → ExceptT ε (Script Op Reply) β} {s t u : σ} {a : α} {r : Except ε β} {bad : Prop}
    {M : σ → Prop}
    (hp : ∀ x t', Ran E p.run s x t' →
      (x = .ok a ∧ t' = t) ∨ bad ∧ (∃ e, x = .error e) ∧ M t')
    (h : Ran E (p >>= f).run s r u) :
    Ran E (f a).run t r u ∨ bad ∧ (∃ e, r = .error e) ∧ M u := by
  have hcases : ∀ x t', Ran E p.run s x t' →
      (∃ b, x = .ok b ∧ b = a ∧ t' = t) ∨ bad ∧ (∃ e, x = .error e) ∧ M t' := fun x t' hx =>
    (hp x t' hx).imp_left fun hok => ⟨a, hok.1, rfl, hok.2⟩
  rcases ran_ok_bind_cases hcases h with ⟨b, t', ⟨rfl, rfl⟩, hrest⟩ | hstop
  · exact Or.inl hrest
  · exact Or.inr hstop

/-- ... and where that cannot stop. -/
theorem ran_ok_bind_ok {p : ExceptT ε (Script Op Reply) α}
    {f : α → ExceptT ε (Script Op Reply) β} {s t u : σ} {a : α} {r : Except ε β}
    (hp : ∀ x t', Ran E p.run s x t' → x = .ok a ∧ t' = t) (h : Ran E (p >>= f).run s r u) :
    Ran E (f a).run t r u := by
  have hnext : ∀ x t', Ran E p.run s x t' →
      (x = .ok a ∧ t' = t) ∨ False ∧ (∃ e, x = .error e) ∧ True := fun x t' hx =>
    Or.inl (hp x t' hx)
  exact (ran_ok_bind_next hnext h).resolve_right fun hstop => hstop.1

/-- **A loop of reads leaves the state as it is and answers as the loop of what the reads answer**,
    unless an answer was `bad`. -/
theorem ran_forM_reads {f : γ → ExceptT ε (Script Op Reply) PUnit} {g : γ → Except ε PUnit}
    {bad : Prop} {s : σ}
    (hf : ∀ x r t, Ran E (f x).run s r t → t = s ∧ (r = g x ∨ bad ∧ ∃ e, r = .error e))
    {l : List γ} {r : Except ε PUnit} {t : σ} (h : Ran E (l.forM f).run s r t) :
    t = s ∧ (r = l.forM g ∨ bad ∧ ∃ e, r = .error e) := by
  induction l with
  | nil =>
    obtain ⟨rfl, rfl⟩ := ran_ok_pure_iff.mp h
    exact ⟨rfl, Or.inl rfl⟩
  | cons x l ih =>
    have hcons : (x :: l).forM g = g x >>= fun _ => l.forM g := rfl
    rw [hcons]
    rcases ran_ok_bind_iff.mp h with ⟨e, hx, rfl⟩ | ⟨u, v, hx, hl⟩
    · obtain ⟨rfl, hr⟩ := hf x _ _ hx
      refine ⟨rfl, ?_⟩
      rcases hr with hr | ⟨hbad, _⟩
      · rw [← hr]
        exact Or.inl rfl
      · exact Or.inr ⟨hbad, e, rfl⟩
    · obtain ⟨rfl, hr⟩ := hf x _ _ hx
      rcases hr with hr | ⟨_, e, he⟩
      · rw [← hr]
        exact ih hl
      · cases he

/-! ## 3. Runs alone among other runs -/

theorem Ran.imp {E' : (o : Op) → σ → Reply o → σ → Prop} (hE : ∀ o s r t, E o s r t → E' o s r t)
    {p : Script Op Reply α} {s t : σ} {a : α} (h : Ran E p s a t) : Ran E' p s a t := by
  induction h with
  | ret a s => exact .ret a s
  | call exec _ ih => exact .call (hE _ _ _ _ exec) ih

/-- **What every operation keeps, a run keeps.** -/
theorem Ran.keeps {I : σ → Prop} (hE : ∀ o s r t, E o s r t → I s → I t) {p : Script Op Reply α}
    {s t : σ} {a : α} (h : Ran E p s a t) (hs : I s) : I t := by
  induction h with
  | ret => exact hs
  | call exec _ ih => exact ih (hE _ _ _ _ exec hs)

section Reach

variable {ι : Type} [DecidableEq ι] {Exec : ι → (o : Op) → σ → Reply o → σ → Prop}

/-- **A thread that runs alone is an interleaving.** -/
theorem Ran.reach {i : ι} {p : Script Op Reply α} {s t : σ} {a : α} (h : Ran (Exec i) p s a t)
    {threads : ι → Script Op Reply α} (hi : threads i = p) :
    Reach Exec ⟨s, threads⟩ ⟨t, Function.update threads i (Script.ret a)⟩ := by
  induction h generalizing threads with
  | ret a s =>
    have hsame : Function.update threads i (Script.ret a) = threads := by
      rw [← hi, Function.update_eq_self]
    rw [hsame]
    exact .refl
  | @call o k r s t u a exec rest ih =>
    have hstep : Step Exec ⟨s, threads⟩ ⟨t, Function.update threads i (k r)⟩ :=
      .issue i o k r t hi exec
    have hrest := ih (Function.update_self i (k r) threads)
    rw [Function.update_idem] at hrest
    exact Relation.ReflTransGen.head hstep hrest

end Reach

/-! ## 4. Runs that exist -/

/-- The script has a run from the state. -/
def Returns (E : (o : Op) → σ → Reply o → σ → Prop) (p : Script Op Reply α) (s : σ) : Prop :=
  ∃ a t, Ran E p s a t

theorem returns_ret (a : α) (s : σ) : Returns E (ret a) s := ⟨a, s, .ret _ _⟩

theorem returns_perform {o : Op} {s : σ} (h : ∃ r t, E o s r t) : Returns E (perform o) s := by
  obtain ⟨r, t, hexec⟩ := h
  exact ⟨r, t, ran_perform_iff.mpr hexec⟩

/-- **A sequence returns when its first part does, and what follows does after each run of it.** -/
theorem Returns.bind {p : Script Op Reply α} {f : α → Script Op Reply β} {s : σ}
    (hp : Returns E p s) (hf : ∀ a t, Ran E p s a t → Returns E (f a) t) :
    Returns E (p >>= f) s := by
  obtain ⟨a, t, hrun⟩ := hp
  obtain ⟨b, u, hrest⟩ := hf a t hrun
  exact ⟨b, u, ran_bind_iff.mpr ⟨a, t, hrun, hrest⟩⟩

theorem Returns.ok_bind {p : ExceptT ε (Script Op Reply) α}
    {f : α → ExceptT ε (Script Op Reply) β} {s : σ} (hp : Returns E p.run s)
    (hf : ∀ a t, Ran E p.run s (.ok a) t → Returns E (f a).run t) :
    Returns E (p >>= f).run s := by
  obtain ⟨x, t, hrun⟩ := hp
  cases x with
  | error e => exact ⟨_, t, ran_ok_bind_iff.mpr (Or.inl ⟨e, hrun, rfl⟩)⟩
  | ok a =>
    obtain ⟨r, u, hrest⟩ := hf a t hrun
    exact ⟨r, u, ran_ok_bind_iff.mpr (Or.inr ⟨a, t, hrun, hrest⟩)⟩

/-- A loop of scripts that return and leave the state as it is returns. -/
theorem returns_forM {f : γ → ExceptT ε (Script Op Reply) PUnit} {s : σ}
    (hf : ∀ x, Returns E (f x).run s ∧ ∀ a t, Ran E (f x).run s (.ok a) t → t = s) (l : List γ) :
    Returns E (l.forM f).run s := by
  induction l with
  | nil => exact returns_ret _ _
  | cons x l ih =>
    obtain ⟨hreturns, hstay⟩ := hf x
    refine Returns.ok_bind hreturns fun a t hrun => ?_
    rw [hstay a t hrun]
    exact ih

/-! ## 5. Executable runs -/

/-- Run the script on an executable semantics; `none` where an operation has no step. -/
def runAlone (exec : (o : Op) → σ → Option (Reply o × σ)) :
    Script Op Reply α → σ → Option (α × σ)
  | ret a, s => some (a, s)
  | call o k, s =>
    match exec o s with
    | none => none
    | some (r, t) => runAlone exec (k r) t

/-- **What the executable run returns, a run returns.** -/
theorem ran_runAlone {exec : (o : Op) → σ → Option (Reply o × σ)}
    (hexec : ∀ o s r t, exec o s = some (r, t) → E o s r t) (p : Script Op Reply α) (s : σ)
    (h : (runAlone exec p s).isSome) :
    Ran E p s ((runAlone exec p s).get h).1 ((runAlone exec p s).get h).2 := by
  suffices hrun : ∀ a t, runAlone exec p s = some (a, t) → Ran E p s a t from
    hrun _ _ (Option.some_get h).symm
  clear h
  induction p generalizing s with
  | ret a =>
    intro b t ht
    cases ht
    exact .ret _ _
  | call o k ih =>
    intro b t ht
    simp only [runAlone] at ht
    split at ht
    · cases ht
    · rename_i r u hu
      exact .call (hexec o s r u hu) (ih r u b t ht)

/-! ## 6. Operations that always answer -/

section Answering

variable (exec : (o : Op) → σ → Reply o × σ)

/-- Run the script on operations that always answer. -/
def runWith : Script Op Reply α → σ → α × σ
  | ret a, s => (a, s)
  | call o k, s => runWith (k (exec o s).1) (exec o s).2

@[simp] theorem runWith_ret (a : α) (s : σ) : runWith exec (ret a) s = (a, s) := rfl

@[simp] theorem runWith_perform (o : Op) (s : σ) : runWith exec (perform o) s = exec o s := rfl

/-- **A sequence runs its first part, then what follows.** -/
theorem runWith_bind (p : Script Op Reply α) (f : α → Script Op Reply β) (s : σ) :
    runWith exec (p >>= f) s = runWith exec (f (runWith exec p s).1) (runWith exec p s).2 := by
  induction p generalizing s with
  | ret a => rfl
  | call o k ih => exact ih (exec o s).1 (exec o s).2

/-- ... and goes on only where the first part does not stop. -/
theorem runWith_ok_bind (p : ExceptT ε (Script Op Reply) α)
    (f : α → ExceptT ε (Script Op Reply) β) (s : σ) :
    runWith exec (p >>= f).run s =
      match runWith exec p.run s with
      | (.ok a, t) => runWith exec (f a).run t
      | (.error e, t) => (.error e, t) := by
  have hbind : runWith exec (p >>= f).run s = runWith exec
      (ExceptT.bindCont f (runWith exec p.run s).1) (runWith exec p.run s).2 :=
    runWith_bind exec p.run (ExceptT.bindCont f) s
  rw [hbind]
  obtain ⟨x, t⟩ := runWith exec p.run s
  cases x with
  | error e => rfl
  | ok a => rfl

/-- **Where every operation has the answer of a simpler state, so has every script**: the run on the
    simpler states is a run. -/
theorem ran_runWith {τ : Type} {E : (o : Op) → τ → Reply o → τ → Prop} {S : σ → τ → Prop}
    (hsim : ∀ o s t, S s t → ∃ t', E o t (exec o s).1 t' ∧ S (exec o s).2 t')
    {p : Script Op Reply α} {s : σ} {t : τ} (h : S s t) :
    ∃ t', Ran E p t (runWith exec p s).1 t' ∧ S (runWith exec p s).2 t' := by
  induction p generalizing s t with
  | ret a => exact ⟨t, .ret a t, h⟩
  | call o k ih =>
    obtain ⟨u, hexec, hu⟩ := hsim o s t h
    obtain ⟨t', hrest, ht'⟩ := ih (exec o s).1 hu
    exact ⟨t', .call hexec hrest, ht'⟩

end Answering

end Script
