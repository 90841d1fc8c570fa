/-
  File:      LedgerAccounting/Lib/PartialSums.lean
  Subject:   How large a running sum of signed values gets, whatever part of them it has seen.

  Every sum of some of the values is bounded by the sum of all absolute values (`size`), and sums
  over the fibres of a key are bounded by it together.

  * `mem_scanl_iff`: the values an accumulator takes are the folds over the fronts of the list.
  * `abs_sum_le_size`, `size_le`: bounds on one sum.
  * `size_fibres`: a bound on a sum of sums.
-/
import Mathlib

namespace PartialSums

variable {α κ M : Type*}

/-- The values an accumulator takes in a fold are the folds over the fronts of the list. -/
theorem mem_scanl_iff {β : Type*} {f : β → α → β} {b : β} {l : List α} {x : β} :
    x ∈ l.scanl f b ↔ ∃ k ≤ l.length, (l.take k).foldl f b = x := by
  rw [List.mem_iff_getElem?]
  refine exists_congr fun k => ?_
  rw [List.getElem?_scanl]
  by_cases hk : k ≤ l.length
  · simp [hk]
  · simp [hk]

section Size

variable [AddCommGroup M] [LinearOrder M] (v : α → M)

/-- The absolute values, added up. -/
def size (l : List α) : M := (l.map fun a => |v a|).sum

@[simp] theorem size_nil : size v [] = 0 := rfl

@[simp] theorem size_cons (a : α) (l : List α) : size v (a :: l) = |v a| + size v l := by
  unfold size
  rw [List.map_cons, List.sum_cons]

variable {v} [IsOrderedAddMonoid M]

theorem abs_sum_le_size (l : List α) : |(l.map v).sum| ≤ size v l := by
  induction l with
  | nil => simp
  | cons a l ih =>
    rw [List.map_cons, List.sum_cons, size_cons]
    exact (abs_add_le _ _).trans (add_le_add_right ih _)

theorem size_sublist {l m : List α} (h : l.Sublist m) : size v l ≤ size v m := by
  refine (h.map _).sum_le_sum fun x hx => ?_
  obtain ⟨a, _, rfl⟩ := List.mem_map.mp hx
  exact abs_nonneg _

/-- A sum over some of the values. -/
theorem abs_sum_le_of_sublist {l m : List α} (h : l.Sublist m) : |(l.map v).sum| ≤ size v m :=
  (abs_sum_le_size l).trans (size_sublist h)

theorem size_le {l : List α} {c : M} (h : ∀ a ∈ l, |v a| ≤ c) : size v l ≤ l.length • c := by
  have hle := List.sum_le_card_nsmul (l.map fun a => |v a|) c fun x hx => by
    obtain ⟨a, ha, rfl⟩ := List.mem_map.mp hx
    exact h a ha
  rwa [List.length_map] at hle

omit [IsOrderedAddMonoid M] in
theorem size_filter_add (p : α → Bool) (l : List α) :
    size v (l.filter p) + size v (l.filter fun a => !p a) = size v l := by
  induction l with
  | nil => simp
  | cons a l ih =>
    rw [List.filter_cons, List.filter_cons, size_cons]
    cases hp : p a with
    | true => simp [← ih, add_assoc]
    | false => simp [← ih, add_left_comm]

/-- **The fibres of a key are together no larger than the list.** -/
theorem size_fibres [DecidableEq κ] (key : α → κ) {ks : List κ} (hks : ks.Nodup) (l : List α) :
    (ks.map fun k => size v (l.filter fun a => key a == k)).sum ≤ size v l := by
  induction ks generalizing l with
  | nil =>
    have hnil : size v [] ≤ size v l := size_sublist (List.nil_sublist l)
    simpa using hnil
  | cons k ks ih =>
    rw [List.nodup_cons] at hks
    -- the other fibres lie outside of this one
    have hrest : (ks.map fun k' => size v (l.filter fun a => key a == k')) =
        ks.map fun k' => size v ((l.filter fun a => !(key a == k)).filter
          fun a => key a == k') := by
      refine List.map_congr_left fun k' hk' => ?_
      have hne : k' ≠ k := fun heq => hks.1 (heq ▸ hk')
      rw [List.filter_filter]
      refine congrArg (size v) (List.filter_congr fun a _ => ?_)
      by_cases hkey : key a = k'
      · simp [hkey, hne]
      · simp [hkey]
    rw [List.map_cons, List.sum_cons, hrest, ← size_filter_add (fun a => key a == k) l]
    exact add_le_add_right (ih hks.2 _) _

/-- **A sum of sums over distinct keys.** -/
theorem abs_sum_fibres_le [DecidableEq κ] (key : α → κ) {ks : List κ} (hks : ks.Nodup)
    (l : List α) (sum : κ → M) (hsum : ∀ k, |sum k| ≤ size v (l.filter fun a => key a == k)) :
    |(ks.map sum).sum| ≤ size v l :=
  ((abs_sum_le_size ks).trans (List.sum_le_sum fun k _ => hsum k)).trans (size_fibres key hks l)

end Size

end PartialSums
