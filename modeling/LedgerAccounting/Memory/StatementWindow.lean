/-
  File:      LedgerAccounting/Memory/StatementWindow.lean
  Subject:   The window of a statement on the in-memory store, read as a time window.

  `created_at` and the bounds of the window are numbers of seconds printed as decimal numerals, and
  `ledger` compares the numerals as texts. What the pages then show is the time window exactly when
  no misread numeral shifts an entry across a bound.

  * `statement_window_iff`: when the pages show the entries of the time window.
-/
import LedgerAccounting.Memory.Statement
import LedgerAccounting.Lib.Numerals

namespace LedgerAccounting

open Runs Numerals

variable {digest : ByteArray → String} {salt : String} {state : LedgerState}
  {accountId : String} {f t : Nat}

/-! ## 1. Timestamps -/

/-- The entries created in one call carry one reading of the clock. -/
theorem transition_stamped {s s' : LedgerState}
    (h : ∀ e ∈ s.entries, ∃ c : Nat, e.createdAt = toString c)
    (ht : Transition digest salt s s') : ∀ e ∈ s'.entries, ∃ c : Nat, e.createdAt = toString c := by
  cases ht with
  | keep => exact h
  | account => exact h
  | snapshots => exact h
  | posting sup req parsed _ =>
    intro e he
    rw [record_entries] at he
    rcases List.mem_append.mp he with he | he
    · exact h e he
    · obtain ⟨_, _, _, _, _, rfl⟩ :=
        forall₂_mem_right (createEntries_spec digest salt sup s req.postingId parsed).made he
      exact ⟨sup.clock 0, rfl⟩

/-- **Every `created_at` of a reachable state is a number of seconds.** -/
theorem reachable_stamped (h : Reachable digest salt state) :
    ∀ e ∈ state.entries, ∃ c : Nat, e.createdAt = toString c :=
  reachable_invariant (I := fun s => ∀ e ∈ s.entries, ∃ c : Nat, e.createdAt = toString c)
    (fun _ he => absurd he List.not_mem_nil) (fun _ _ => transition_stamped) h

/-! ## 2. The two windows -/

/-- The entries of the account whose `created_at`, read as a number, is within the bounds. -/
def inTimeWindow (accountId : String) (f t : Nat) (e : EntryRecord) : Bool :=
  e.accountId == accountId && e.createdAt.toNat?.any fun c => f ≤ c && c ≤ t

/-- The bounds `f` and `t` are not misread at the time `c`: inside the window neither is, and
    outside of it a misread bound does not let `c` in, for the other one keeps it out. -/
structure WindowRead (f t c : Nat) : Prop where
  inside : f ≤ c → c ≤ t → ¬ Misread f c ∧ ¬ Misread c t
  below : c < f → Misread f c → (c ≤ t ↔ Misread c t)
  above : t < c → Misread c t → (f ≤ c ↔ Misread f c)

/-- Two comparisons `p` and `q`, reversed where `m₁` and `m₂` hold, are both passed exactly when
    `p` and `q` hold. -/
theorem both_reversed_iff {p q m₁ m₂ : Prop} :
    ((p ↔ ¬ m₁) ∧ (q ↔ ¬ m₂) ↔ p ∧ q) ↔
      (p → q → ¬ m₁ ∧ ¬ m₂) ∧ (¬ p → m₁ → (q ↔ m₂)) ∧ (¬ q → m₂ → (p ↔ m₁)) := by
  by_cases hp : p <;> by_cases hq : q <;> by_cases h₁ : m₁ <;> by_cases h₂ : m₂ <;>
    simp [hp, hq, h₁, h₂]

/-- The text comparisons with both bounds come out as the comparisons of the numbers exactly where
    the bounds are not misread. -/
theorem window_texts_iff {c : Nat} :
    (toString f ≤ toString c ∧ toString c ≤ toString t ↔ f ≤ c ∧ c ≤ t) ↔ WindowRead f t c := by
  have hf : toString f ≤ toString c ↔ (f ≤ c ↔ ¬ Misread f c) := repr_le_iff f c
  have ht : toString c ≤ toString t ↔ (c ≤ t ↔ ¬ Misread c t) := repr_le_iff c t
  rw [hf, ht, both_reversed_iff, not_le, not_le]
  exact ⟨fun h => ⟨h.1, h.2.1, h.2.2⟩, fun h => ⟨h.inside, h.below, h.above⟩⟩

/-- Two selections of a list are equal exactly when they select the same elements. -/
theorem filter_eq_filter_iff {α : Type*} {p q : α → Bool} {l : List α} :
    l.filter p = l.filter q ↔ ∀ x ∈ l, p x = q x := by
  constructor
  · intro h x hx
    have hmem : x ∈ l.filter p ↔ x ∈ l.filter q := by rw [h]
    rw [List.mem_filter, List.mem_filter] at hmem
    exact Bool.eq_iff_iff.mpr ⟨fun hp => (hmem.mp ⟨hx, hp⟩).2, fun hq => (hmem.mpr ⟨hx, hq⟩).2⟩
  · exact List.filter_congr

/-- The selection of a statement and the time window agree on an entry exactly when it is another
    account's or the bounds are not misread at its time. -/
theorem inStatement_eq_iff {e : EntryRecord} {c : Nat} (hc : e.createdAt = toString c) :
    inStatement accountId (some (toString f)) (some (toString t)) e = inTimeWindow accountId f t e ↔
      (e.accountId = accountId → WindowRead f t c) := by
  have hsecs : e.createdAt.toNat? = some c := by
    rw [hc]
    exact Nat.toNat?_repr c
  unfold inStatement inTimeWindow
  rw [hsecs, hc, Bool.eq_iff_iff, ← window_texts_iff]
  simp only [Option.all_some, Option.any_some, Bool.and_eq_true, beq_iff_eq, decide_eq_true_eq]
  by_cases hacc : e.accountId = accountId
  · simp only [hacc, true_and, true_implies]
  · simp only [hacc, false_and, false_implies]

variable (accountId f t) in
/-- The selection of a statement is the time window exactly when no entry of the account is
    misread. -/
theorem selection_eq_iff (hr : Reachable digest salt state) :
    state.entries.filter (inStatement accountId (some (toString f)) (some (toString t))) =
        state.entries.filter (inTimeWindow accountId f t) ↔
      ∀ e ∈ state.entries, e.accountId = accountId →
        ∀ c : Nat, e.createdAt = toString c → WindowRead f t c := by
  rw [filter_eq_filter_iff]
  refine forall₂_congr fun e he => ?_
  obtain ⟨c, hc⟩ := reachable_stamped hr e he
  rw [inStatement_eq_iff hc]
  refine forall_congr' fun _ => ⟨fun h c' hc' => ?_, fun h => h c hc⟩
  rwa [Nat.repr_inj.mp (hc'.symm.trans hc)]

/-! ## 3. The statement as a time window -/

variable (accountId) in
/-- What all pages of the store at rest show, whether the account is known or not. -/
theorem walkPages_seen (since till : Option String) (limit : Nat) (hr : Reachable digest salt state)
    {n : Nat} (hn : state.entries.length ≤ n) :
    let pages := walkPages digest salt accountId since till limit (List.replicate n []) state none
    walkEnded pages = true ∧
      seenEntries pages = state.entries.filter (inStatement accountId since till) := by
  intro pages
  cases hacc : getAccount state accountId with
  | none =>
    have hpages : pages = [] := walkPages_unknown hacc _ _
    rw [hpages, unknown_unbooked since till hr hacc]
    exact ⟨rfl, rfl⟩
  | some acc => exact walkPages_still since till limit hr hacc hn

/-- **The pages show the time window exactly when no entry of the account is misread**: all pages
    of the store at rest, fetched one after another. -/
theorem statement_window_iff (digest : ByteArray → String) (salt : String) (state : LedgerState)
    (hr : Reachable digest salt state) (accountId : String) (f t limit n : Nat)
    (hn : state.entries.length ≤ n) :
    let pages := walkPages digest salt accountId (some (toString f)) (some (toString t)) limit
      (List.replicate n []) state none
    walkEnded pages = true ∧
      (seenEntries pages = state.entries.filter (inTimeWindow accountId f t) ↔
        ∀ e ∈ state.entries, e.accountId = accountId →
          ∀ c : Nat, e.createdAt = toString c → WindowRead f t c) := by
  intro pages
  have hseen := walkPages_seen accountId (some (toString f)) (some (toString t)) limit hr hn
  refine ⟨hseen.1, ?_⟩
  rw [hseen.2]
  exact selection_eq_iff accountId f t hr

theorem statement_window_iff_sample :
    let pages := walkPages sampleDigest sampleSalt "uc" (some (toString 1600000000))
      (some (toString 1800000000)) 1 (List.replicate 2 []) sampleState none
    walkEnded pages = true ∧
      (seenEntries pages = sampleState.entries.filter (inTimeWindow "uc" 1600000000 1800000000) ↔
        ∀ e ∈ sampleState.entries, e.accountId = "uc" →
          ∀ c : Nat, e.createdAt = toString c → WindowRead 1600000000 1800000000 c) :=
  statement_window_iff sampleDigest sampleSalt sampleState sampleState_reachable "uc" 1600000000
    1800000000 1 2 (by decide +kernel)

/-- **From the second day of the epoch on nothing is shown**: "86400" comes behind "1700000000" as
    a text, and the entry of the sample run is missing from the statement. -/
theorem statement_window_misses :
    ¬ ∀ (digest : ByteArray → String) (salt : String) (state : LedgerState) (accountId : String)
      (f t limit n : Nat), Reachable digest salt state → state.entries.length ≤ n →
      seenEntries (walkPages digest salt accountId (some (toString f)) (some (toString t)) limit
        (List.replicate n []) state none) =
          state.entries.filter (inTimeWindow accountId f t) := by
  intro h
  have hlen : sampleState.entries.length ≤ 2 := by decide +kernel
  have hall := h sampleDigest sampleSalt sampleState "uc" 86400 1800000000 50 2
    sampleState_reachable hlen
  rw [(walkPages_seen "uc" (some (toString 86400)) (some (toString 1800000000)) 50
    sampleState_reachable hlen).2,
    selection_eq_iff "uc" 86400 1800000000 sampleState_reachable] at hall
  have hentry : ∃ e ∈ sampleState.entries,
      e.accountId = "uc" ∧ e.createdAt = toString 1700000000 := by decide +kernel
  have hmisread : Misread 86400 1700000000 := by decide +kernel
  obtain ⟨e, he, hacc, hc⟩ := hentry
  exact ((hall e he hacc _ hc).inside (by decide) (by decide)).1 hmisread

/-- Bounds with as many digits as the time are not misread. -/
theorem windowRead_of_digitCount {c : Nat} (hf : digitCount f = digitCount c)
    (ht : digitCount t = digitCount c) : WindowRead f t c := by
  have hfc : ¬ Misread f c := by
    unfold Misread
    omega
  have hct : ¬ Misread c t := by
    unfold Misread
    omega
  exact ⟨fun _ _ => ⟨hfc, hct⟩, fun _ h => absurd h hfc, fun _ h => absurd h hct⟩

/-- **Between bounds with as many digits as its timestamps an account's statement is the time
    window.** -/
theorem statement_window_of_digitCount (hr : Reachable digest salt state) (limit : Nat)
    (hdigits : ∀ e ∈ state.entries, e.accountId = accountId → ∀ c : Nat,
      e.createdAt = toString c → digitCount f = digitCount c ∧ digitCount t = digitCount c) :
    seenEntries (walkPages digest salt accountId (some (toString f)) (some (toString t)) limit
      (List.replicate state.entries.length []) state none) =
        state.entries.filter (inTimeWindow accountId f t) := by
  rw [(walkPages_seen accountId _ _ limit hr le_rfl).2, selection_eq_iff accountId f t hr]
  intro e he hacc c hc
  obtain ⟨hf, ht⟩ := hdigits e he hacc c hc
  exact windowRead_of_digitCount hf ht

end LedgerAccounting
