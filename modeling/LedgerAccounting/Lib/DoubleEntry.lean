/-
  File:      LedgerAccounting/Lib/DoubleEntry.lean
  Subject:   Double-entry bookkeeping in its own terms: lines booked on accounts, transactions
             that balance per asset, and what follows for the books as a whole.

  A line books a value on an account in an asset; a debit is a positive value, a credit a negative
  one. A `Transaction` carries the proof that its lines balance in every asset, so an unbalanced
  one cannot be built.

  * `trial_balance`: over any finite set of accounts that holds every booked one, the balances of
    balanced books sum to zero, in one asset or in any selection of assets.
  * `segregation`: so what a part of the accounts holds is what the rest owes.
-/
import Mathlib

namespace DoubleEntry

open Finset

structure Line (A K M : Type*) where
  account : A
  asset : K
  value : M

variable {A K M : Type*}

/-! ## 1. Values of selected lines -/

section Value

variable [AddCommMonoid M]

/-- The value booked on the lines `p` selects. -/
def value (p : Line A K M → Bool) (ls : List (Line A K M)) : M :=
  ((ls.filter p).map (·.value)).sum

@[simp] theorem value_nil (p : Line A K M → Bool) : value p [] = 0 := rfl

@[simp] theorem value_cons (p : Line A K M → Bool) (l : Line A K M) (ls : List (Line A K M)) :
    value p (l :: ls) = (if p l then l.value else 0) + value p ls := by
  unfold value
  by_cases h : p l = true <;> simp [h]

@[simp] theorem value_append (p : Line A K M → Bool) (ls ms : List (Line A K M)) :
    value p (ls ++ ms) = value p ls + value p ms := by
  unfold value
  rw [List.filter_append, List.map_append, List.sum_append]

theorem value_congr {p q : Line A K M → Bool} {ls : List (Line A K M)}
    (h : ∀ l ∈ ls, p l = q l) : value p ls = value q ls := by
  unfold value
  rw [List.filter_congr h]

/-- The order of the lines does not matter. -/
theorem value_perm {p : Line A K M → Bool} {ls ms : List (Line A K M)} (h : ls.Perm ms) :
    value p ls = value p ms :=
  ((h.filter p).map _).sum_eq

/-- **Exchange of sums**: the selected value, summed over the fibres of a key, is the selected
    value. -/
theorem sum_value_fiber {ι : Type*} [DecidableEq ι] (key : Line A K M → ι) (S : Finset ι)
    (p : Line A K M → Bool) (ls : List (Line A K M)) (h : ∀ l ∈ ls, p l = true → key l ∈ S) :
    ∑ i ∈ S, value (fun l => p l && decide (key l = i)) ls = value p ls := by
  induction ls with
  | nil => simp
  | cons l ls ih =>
    rw [List.forall_mem_cons] at h
    simp only [value_cons, sum_add_distrib, ih h.2]
    congr 1
    by_cases hp : p l = true
    · simp [hp, h.1 hp]
    · simp [hp]

end Value

/-! ## 2. Balanced books -/

section Balanced

variable [AddCommMonoid M] [DecidableEq K]

/-- In every asset the booked values sum to zero. -/
def Balanced (ls : List (Line A K M)) : Prop :=
  ∀ k : K, value (fun l => decide (l.asset = k)) ls = 0

theorem balanced_nil : Balanced ([] : List (Line A K M)) := fun _ => rfl

theorem Balanced.append {ls ms : List (Line A K M)} (h : Balanced ls) (h' : Balanced ms) :
    Balanced (ls ++ ms) := fun k => by rw [value_append, h k, h' k, add_zero]

/-- Balanced books have value zero over any selection of assets. -/
theorem Balanced.value_eq_zero {ls : List (Line A K M)} (h : Balanced ls) (q : K → Bool) :
    value (fun l => q l.asset) ls = 0 := by
  rw [← sum_value_fiber (·.asset) (ls.map (·.asset)).toFinset _ ls fun l hl _ =>
    List.mem_toFinset.mpr (List.mem_map_of_mem hl)]
  refine sum_eq_zero fun k _ => ?_
  by_cases hk : q k = true
  · rw [← h k]
    refine value_congr fun l _ => ?_
    by_cases hl : l.asset = k
    · simp [hl, hk]
    · simp [hl]
  · have hnone : ∀ l ∈ ls, (q l.asset && decide (l.asset = k)) = false := by
      intro l _
      by_cases hl : l.asset = k
      · simp [hl, hk]
      · simp [hl]
    unfold value
    rw [List.filter_eq_nil_iff.mpr fun l hl => by simp [hnone l hl]]
    rfl

/-- A transaction: lines together with the proof that they balance in every asset. -/
structure Transaction (A K M : Type*) [AddCommMonoid M] [DecidableEq K] where
  lines : List (Line A K M)
  balanced : Balanced lines

/-- The lines of a journal, in order. -/
def journalLines (j : List (Transaction A K M)) : List (Line A K M) :=
  j.flatMap (·.lines)

/-- **The lines of a journal balance.** -/
theorem journal_balanced (j : List (Transaction A K M)) : Balanced (journalLines j) := by
  induction j with
  | nil => exact balanced_nil
  | cons t j ih => exact t.balanced.append ih

variable [DecidableEq A]

/-- The balance of an account over a selection of assets. -/
def balance (ls : List (Line A K M)) (a : A) (q : K → Bool) : M :=
  value (fun l => q l.asset && decide (l.account = a)) ls

/-- Over a set of accounts that holds every one booked in the selected assets, the balances sum to
    zero. -/
theorem Balanced.sum_balance {ls : List (Line A K M)} (h : Balanced ls) (S : Finset A)
    (q : K → Bool) (hS : ∀ l ∈ ls, q l.asset = true → l.account ∈ S) :
    ∑ a ∈ S, balance ls a q = 0 := by
  rw [← h.value_eq_zero q]
  exact sum_value_fiber (·.account) S _ ls hS

/-- **Trial balance**: over a set of accounts that holds every booked one, the balances sum to
    zero. -/
theorem trial_balance {ls : List (Line A K M)} (h : Balanced ls) (S : Finset A)
    (hS : ∀ l ∈ ls, l.account ∈ S) (q : K → Bool) : ∑ a ∈ S, balance ls a q = 0 :=
  h.sum_balance S q fun l hl _ => hS l hl

end Balanced

section Group

variable [AddCommGroup M] [DecidableEq K]

/-- The lines with both sides exchanged. -/
def flip (ls : List (Line A K M)) : List (Line A K M) :=
  ls.map fun l => { l with value := -l.value }

theorem balanced_flip {ls : List (Line A K M)} (h : Balanced ls) : Balanced (flip ls) := by
  intro k
  have hneg : ∀ ms : List (Line A K M),
      value (fun l => decide (l.asset = k)) (flip ms) =
        -value (fun l => decide (l.asset = k)) ms := by
    intro ms
    induction ms with
    | nil => simp [flip]
    | cons m ms ih =>
      rw [flip, List.map_cons, value_cons, value_cons, ← flip, ih]
      by_cases hm : m.asset = k
      · simp [hm]; abel
      · simp [hm]
  rw [hneg, h k, neg_zero]

variable [DecidableEq A]

/-- **Segregation**: what the accounts in `T` hold is what the other accounts owe. -/
theorem segregation {ls : List (Line A K M)} (h : Balanced ls) (S : Finset A)
    (hS : ∀ l ∈ ls, l.account ∈ S) (q : K → Bool) (T : A → Prop) [DecidablePred T] :
    ∑ a ∈ S with T a, balance ls a q = -∑ a ∈ S with ¬ T a, balance ls a q := by
  rw [eq_neg_iff_add_eq_zero, sum_filter_add_sum_filter_not]
  exact trial_balance h S hS q

end Group

/-! ## 3. The two sides of a balanced transaction -/

section Sides

variable [AddCommGroup M] [LinearOrder M] [DecidableEq K] [IsOrderedAddMonoid M]

theorem Balanced.exists_credit {ls : List (Line A K M)} (h : Balanced ls) {l : Line A K M}
    (hl : l ∈ ls) (hpos : 0 < l.value) : ∃ c ∈ ls, c.asset = l.asset ∧ c.value < 0 := by
  by_contra hno
  push Not at hno
  have hsel : l.value ∈ (ls.filter fun m => decide (m.asset = l.asset)).map (·.value) :=
    List.mem_map_of_mem (List.mem_filter.mpr ⟨hl, by simp⟩)
  have hle : l.value ≤ value (fun m => decide (m.asset = l.asset)) ls := by
    refine List.single_le_sum (fun x hx => ?_) _ hsel
    obtain ⟨m, hm, rfl⟩ := List.mem_map.mp hx
    obtain ⟨hml, hma⟩ := List.mem_filter.mp hm
    exact hno m hml (by simpa using hma)
  rw [h l.asset] at hle
  exact absurd hpos hle.not_gt

theorem Balanced.exists_debit {ls : List (Line A K M)} (h : Balanced ls) {l : Line A K M}
    (hl : l ∈ ls) (hneg : l.value < 0) : ∃ d ∈ ls, d.asset = l.asset ∧ 0 < d.value := by
  obtain ⟨c, hc, hca, hcv⟩ := (balanced_flip h).exists_credit
    (l := { l with value := -l.value }) (List.mem_map_of_mem hl) (by simpa using hneg)
  obtain ⟨d, hd, rfl⟩ := List.mem_map.mp hc
  exact ⟨d, hd, hca, by simpa using hcv⟩

/-- **Both sides are booked** in every asset that balanced lines without zero lines mention. -/
theorem Balanced.both_sides {ls : List (Line A K M)} (h : Balanced ls)
    (hne : ∀ l ∈ ls, l.value ≠ 0) {l : Line A K M} (hl : l ∈ ls) :
    (∃ d ∈ ls, d.asset = l.asset ∧ 0 < d.value) ∧ ∃ c ∈ ls, c.asset = l.asset ∧ c.value < 0 := by
  rcases lt_or_gt_of_ne (hne l hl) with hlt | hgt
  · exact ⟨h.exists_debit hl hlt, l, hl, rfl, hlt⟩
  · exact ⟨⟨l, hl, rfl, hgt⟩, h.exists_credit hl hgt⟩

end Sides

end DoubleEntry
