/-
  File:      LedgerAccounting/Lib/Runs.lean
  Subject:   Runs of a machine that takes one call after another, and loops that stop at the
             first error.

  A machine answers a call `κ` in a state `σ` with an output `ω` and a new state. What one call
  preserves, every run preserves (`run_invariant`); what relates the calls of two machines relates
  their runs (`run_filterMap`, `run_forall₂`), and calls without effect can be left out
  (`run_kept`). A loop that errs does so at one position, and what follows it does not matter
  (`foldlM_error_iff`).
-/
import Mathlib.Data.List.Forall2

namespace Runs

/-! ## 1. Runs -/

variable {κ σ ω : Type*} (step : κ → σ → ω × σ)

/-- The state after the calls, taken in order. -/
def run (calls : List κ) (s : σ) : σ := calls.foldl (fun s c => (step c s).2) s

/-- The outputs of the calls, in order. -/
def outputs : List κ → σ → List ω
  | [], _ => []
  | c :: calls, s => (step c s).1 :: outputs calls (step c s).2

@[simp] theorem run_nil (s : σ) : run step [] s = s := rfl

@[simp] theorem run_cons (c : κ) (calls : List κ) (s : σ) :
    run step (c :: calls) s = run step calls (step c s).2 := rfl

theorem run_append (calls calls' : List κ) (s : σ) :
    run step (calls ++ calls') s = run step calls' (run step calls s) := by
  unfold run
  rw [List.foldl_append]

theorem run_concat (calls : List κ) (c : κ) (s : σ) :
    run step (calls ++ [c]) s = (step c (run step calls s)).2 := by
  rw [run_append]
  rfl

theorem outputs_append (calls calls' : List κ) (s : σ) :
    outputs step (calls ++ calls') s =
      outputs step calls s ++ outputs step calls' (run step calls s) := by
  induction calls generalizing s with
  | nil => rfl
  | cons c calls ih => simp only [List.cons_append, outputs, run_cons, ih]

theorem outputs_concat (calls : List κ) (c : κ) (s : σ) :
    outputs step (calls ++ [c]) s = outputs step calls s ++ [(step c (run step calls s)).1] := by
  rw [outputs_append]
  rfl

variable {step}

/-- **What every call keeps, every run keeps.** -/
theorem run_invariant {I : σ → Prop} (hstep : ∀ c s, I s → I (step c s).2) (calls : List κ)
    {s : σ} (h : I s) : I (run step calls s) := by
  induction calls generalizing s with
  | nil => exact h
  | cons c calls ih => exact ih (hstep c s h)

/-! ## 2. Runs of two machines -/

/-- The output at a position is that of the call there, in the state of the run up to it. -/
theorem outputs_getElem? (step : κ → σ → ω × σ) (calls : List κ) (s : σ) (i : Nat) :
    (outputs step calls s)[i]? =
      calls[i]?.map fun c => (step c (run step (calls.take i) s)).1 := by
  induction calls generalizing s i with
  | nil => rfl
  | cons c calls ih =>
    cases i with
    | zero => rfl
    | succ i => exact ih (step c s).2 i

/-- The run up to a later position goes on from an earlier one. -/
theorem run_take_drop (step : κ → σ → ω × σ) (calls : List κ) (s : σ) {i j : Nat} (h : i ≤ j) :
    run step (calls.take j) s =
      run step ((calls.take j).drop i) (run step (calls.take i) s) := by
  have hsplit : calls.take j = calls.take i ++ (calls.take j).drop i := by
    conv_lhs => rw [← List.take_append_drop i (calls.take j), List.take_take, Nat.min_eq_left h]
  rw [← run_append, ← hsplit]

/-- **A machine whose events each do what one call of another machine does, or nothing, runs as
    the calls of its events do.** -/
theorem run_filterMap {ε ρ : Type*} {handle : ε → σ → ρ × σ} {step : κ → σ → ω × σ}
    {call : ε → Option κ} (h : ∀ e s, (handle e s).2 = run step (call e).toList s)
    (events : List ε) (s : σ) : run handle events s = run step (events.filterMap call) s := by
  induction events generalizing s with
  | nil => rfl
  | cons e events ih =>
    rw [run_cons, ih, h]
    cases hc : call e with
    | none => rw [List.filterMap_cons_none hc]; rfl
    | some c => rw [List.filterMap_cons_some hc]; rfl

/-- What the outputs of the events say, when each says what the output of its call does. -/
theorem outputs_filterMap {ε ρ τ : Type*} {handle : ε → σ → ρ × σ} {step : κ → σ → ω × σ}
    {call : ε → Option κ} (h : ∀ e s, (handle e s).2 = run step (call e).toList s)
    {f : ρ → Option τ} {g : ω → Option τ}
    (hf : ∀ e s, f (handle e s).1 = (call e).bind fun c => g (step c s).1)
    (events : List ε) (s : σ) : (outputs handle events s).filterMap f =
      (outputs step (events.filterMap call) s).filterMap g := by
  induction events generalizing s with
  | nil => rfl
  | cons e events ih =>
    rw [outputs, List.filterMap_cons, ih, h, hf]
    cases hc : call e with
    | none =>
      rw [List.filterMap_cons_none hc]
      rfl
    | some c =>
      rw [List.filterMap_cons_some hc, outputs, List.filterMap_cons]
      rfl

/-- **Related calls that do the same make related runs.** -/
theorem run_forall₂ {κ' σ' ω' : Type*} {step : κ → σ → ω × σ} {step' : κ' → σ' → ω' × σ'}
    {C : κ → κ' → Prop} {S : σ → σ' → Prop} {A : ω → ω' → Prop}
    (h : ∀ c c' s s', C c c' → S s s' →
      A (step c s).1 (step' c' s').1 ∧ S (step c s).2 (step' c' s').2)
    {calls : List κ} {calls' : List κ'} (hc : List.Forall₂ C calls calls') {s : σ} {s' : σ'}
    (hs : S s s') : List.Forall₂ A (outputs step calls s) (outputs step' calls' s') ∧
      S (run step calls s) (run step' calls' s') := by
  induction hc generalizing s s' with
  | nil => exact ⟨.nil, hs⟩
  | cons hcc _ ih =>
    obtain ⟨hA, hS⟩ := h _ _ _ _ hcc hs
    obtain ⟨hAs, hrun⟩ := ih hS
    exact ⟨.cons hA hAs, hrun⟩

/-- The calls of a run with their outputs, as far as the test keeps them. -/
def kept (step : κ → σ → ω × σ) (keep : κ → ω → Bool) (calls : List κ) (s : σ) :
    List (κ × ω) :=
  (calls.zip (outputs step calls s)).filter fun p => keep p.1 p.2

/-- **Calls that do nothing can be left out**: the rest of the run ends in the same state and has
    the same outputs. -/
theorem run_kept {keep : κ → ω → Bool} (hidle : ∀ c s, keep c (step c s).1 = false →
    (step c s).2 = s) (calls : List κ) (s : σ) :
    run step ((kept step keep calls s).map (·.1)) s = run step calls s ∧
      outputs step ((kept step keep calls s).map (·.1)) s =
        (kept step keep calls s).map (·.2) := by
  induction calls generalizing s with
  | nil => exact ⟨rfl, rfl⟩
  | cons c calls ih =>
    have hkept : kept step keep (c :: calls) s =
        (if keep c (step c s).1 then [(c, (step c s).1)] else []) ++
          kept step keep calls (step c s).2 := by
      unfold kept
      rw [outputs, List.zip_cons_cons, List.filter_cons]
      cases keep c (step c s).1 <;> rfl
    obtain ⟨hrun, houts⟩ := ih (step c s).2
    rw [hkept, run_cons]
    cases hk : keep c (step c s).1 with
    | true => exact ⟨hrun, congrArg _ houts⟩
    | false =>
      rw [hidle c s hk] at hrun houts ⊢
      exact ⟨hrun, houts⟩

/-! ## 3. Loops that stop at the first error -/

variable {α β ε : Type*}

/-- A sequence succeeds exactly when its first part does and what follows does. -/
theorem bind_ok_iff {ε α β : Type} {x : Except ε α} {f : α → Except ε β} {b : β} :
    (x >>= f) = .ok b ↔ ∃ a, x = .ok a ∧ f a = .ok b := by
  cases x with
  | error e => simp [bind, Except.bind]
  | ok a => simp [bind, Except.bind]

/-- Another text for the error changes nothing else. -/
theorem mapError_ok_iff {ε ε' α : Type} {x : Except ε α} {f : ε → ε'} {a : α} :
    x.mapError f = .ok a ↔ x = .ok a := by
  cases x with
  | error e => simp [Except.mapError]
  | ok b => simp [Except.mapError]

/-- An error of a sequence is one of its first part or of what follows. -/
theorem bind_error {ε α β : Type} {x : Except ε α} {f : α → Except ε β} {e : ε}
    (h : (x >>= f) = .error e) : x = .error e ∨ ∃ a, x = .ok a ∧ f a = .error e := by
  cases x with
  | error e' => exact Or.inl (by simpa [bind, Except.bind] using h)
  | ok a => exact Or.inr ⟨a, rfl, h⟩

/-- An error of a loop of checks is the error of one of them. -/
theorem forM_error {f : α → Except ε PUnit} {l : List α} {e : ε} (h : l.forM f = .error e) :
    ∃ x ∈ l, f x = .error e := by
  induction l with
  | nil => cases h
  | cons x l ih =>
    have hbind : (f x >>= fun _ => l.forM f) = .error e := h
    cases hx : f x with
    | error e' =>
      rw [hx] at hbind
      exact ⟨x, List.mem_cons_self, hx.trans hbind⟩
    | ok u =>
      rw [hx] at hbind
      obtain ⟨y, hy, he⟩ := ih hbind
      exact ⟨y, List.mem_cons_of_mem _ hy, he⟩

/-- An error of a loop that collects results is the error of one of them. -/
theorem mapM_error {f : α → Except ε β} {l : List α} {e : ε} (h : l.mapM f = .error e) :
    ∃ x ∈ l, f x = .error e := by
  induction l with
  | nil => cases h
  | cons x l ih =>
    rw [List.mapM_cons] at h
    cases hx : f x with
    | error e' =>
      simp only [hx, bind, Except.bind] at h
      cases h
      exact ⟨x, List.mem_cons_self, hx⟩
    | ok u =>
      cases hl : l.mapM f with
      | error e' =>
        simp only [hx, hl, bind, Except.bind] at h
        cases h
        obtain ⟨y, hy, he⟩ := ih hl
        exact ⟨y, List.mem_cons_of_mem _ hy, he⟩
      | ok us =>
        simp only [hx, hl, bind, Except.bind, pure, Except.pure] at h
        cases h

/-- A loop of checks passes exactly when every check passes. -/
theorem forM_ok_iff {f : α → Except ε PUnit} {l : List α} :
    l.forM f = .ok () ↔ ∀ x ∈ l, f x = .ok () := by
  induction l with
  | nil => exact ⟨fun _ x hx => absurd hx List.not_mem_nil, fun _ => rfl⟩
  | cons x l ih =>
    rw [List.forall_mem_cons]
    show (f x >>= fun _ => l.forM f) = .ok () ↔ _
    cases hx : f x with
    | error e => simp [bind, Except.bind]
    | ok u => simpa [bind, Except.bind] using ih

/-- A loop that collects results succeeds with the result of every element, in order. -/
theorem mapM_ok_iff {f : α → Except ε β} {l : List α} {r : List β} :
    l.mapM f = .ok r ↔ List.Forall₂ (fun x y => f x = .ok y) l r := by
  induction l generalizing r with
  | nil => simp [pure, Except.pure, eq_comm]
  | cons x l ih =>
    rw [List.mapM_cons, List.forall₂_cons_left_iff]
    cases hx : f x with
    | error e => simp [bind, Except.bind]
    | ok y =>
      cases hl : l.mapM f with
      | error e =>
        have hno : ∀ r', ¬ List.Forall₂ (fun x y => f x = .ok y) l r' := fun r' h => by
          rw [ih.mpr h] at hl
          cases hl
        simp [bind, Except.bind, hno]
      | ok ys =>
        simp only [bind, Except.bind, pure, Except.pure, Except.ok.injEq]
        constructor
        · rintro rfl
          exact ⟨y, ys, rfl, ih.mp hl, rfl⟩
        · rintro ⟨b, u, hb, hu, rfl⟩
          have hus := hl.symm.trans (ih.mpr hu)
          cases hus
          rw [hb]

/-- What stands on the right of related lists has a partner on the left. -/
theorem forall₂_mem_right {R : α → β → Prop} {l : List α} {r : List β} (h : List.Forall₂ R l r)
    {y : β} (hy : y ∈ r) : ∃ x ∈ l, R x y := by
  induction h with
  | nil => exact absurd hy List.not_mem_nil
  | cons hxy _ ih =>
    rcases List.mem_cons.mp hy with rfl | hy
    · exact ⟨_, List.mem_cons_self, hxy⟩
    · obtain ⟨x, hx, hR⟩ := ih hy
      exact ⟨x, List.mem_cons_of_mem _ hx, hR⟩

/-- What stands on the left of related lists has a partner on the right. -/
theorem forall₂_mem_left {R : α → β → Prop} {l : List α} {r : List β} (h : List.Forall₂ R l r)
    {x : α} (hx : x ∈ l) : ∃ y ∈ r, R x y := by
  obtain ⟨y, hy, hR⟩ := forall₂_mem_right h.flip hx
  exact ⟨y, hy, hR⟩

/-- A list whose elements all have a partner is related to a list of partners. -/
theorem exists_forall₂ {R : α → β → Prop} {l : List α} (h : ∀ x ∈ l, ∃ y, R x y) :
    ∃ r, List.Forall₂ R l r := by
  induction l with
  | nil => exact ⟨[], .nil⟩
  | cons x l ih =>
    rw [List.forall_mem_cons] at h
    obtain ⟨y, hy⟩ := h.1
    obtain ⟨r, hr⟩ := ih h.2
    exact ⟨y :: r, .cons hy hr⟩

/-- What holds along two related pairs of lists holds between the outer two. -/
theorem forall₂_comp {γ : Type*} {R : α → β → Prop} {S : β → γ → Prop} {T : α → γ → Prop}
    (hc : ∀ x y z, R x y → S y z → T x z) {l : List α} {m : List β} {r : List γ}
    (h : List.Forall₂ R l m) (h' : List.Forall₂ S m r) : List.Forall₂ T l r := by
  induction h generalizing r with
  | nil =>
    cases h'
    exact .nil
  | cons hxy _ ih =>
    cases h' with
    | cons hyz hrest => exact .cons (hc _ _ _ hxy hyz) (ih hrest)

/-! ## 4. Where a loop stops -/

/-- **A loop stops with an error exactly at the position where the part before it has gone through
    and the next turn errs.** -/
theorem foldlM_error_iff {ε σ α : Type} {f : σ → α → Except ε σ} {l : List α} {s : σ} {e : ε} :
    l.foldlM f s = .error e ↔
      ∃ i x t, l[i]? = some x ∧ (l.take i).foldlM f s = .ok t ∧ f t x = .error e := by
  induction l generalizing s with
  | nil =>
    constructor
    · intro h
      cases h
    · rintro ⟨i, x, t, hx, _⟩
      cases hx
  | cons y l ih =>
    rw [List.foldlM_cons]
    constructor
    · intro h
      rcases bind_error h with h | ⟨s', hs', h⟩
      · exact ⟨0, y, s, rfl, rfl, h⟩
      · obtain ⟨i, x, t, hx, ht, he⟩ := ih.mp h
        refine ⟨i + 1, x, t, hx, ?_, he⟩
        rw [List.take_succ_cons, List.foldlM_cons, hs']
        exact ht
    · rintro ⟨i, x, t, hx, ht, he⟩
      cases i with
      | zero =>
        obtain rfl : y = x := Option.some.inj hx
        obtain rfl : s = t := Except.ok.inj ht
        rw [he]
        rfl
      | succ i =>
        rw [List.take_succ_cons, List.foldlM_cons] at ht
        obtain ⟨s', hs', hrest⟩ := bind_ok_iff.mp ht
        rw [hs']
        exact ih.mpr ⟨i, x, t, hx, hrest, he⟩

end Runs
