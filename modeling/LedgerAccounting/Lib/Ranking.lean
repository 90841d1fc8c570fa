/-
  File:      LedgerAccounting/Lib/Ranking.lean
  Subject:   Sorted lists cut off at a length, over any type `α` and any comparison that is
             transitive and total, for lists in which no two members tie.

  * `Compares.thenBy`: comparing by two keys.
  * `sort_unique`: a sorted arrangement is the result of the sort, so the order of the input does
    not matter.
  * `take_sort_append_iff`: when more members leave a full cut as it is.
  * `mem_take_sort`: the members of the cut are those that fewer members rank before.
-/
import Mathlib.Data.List.Sort

namespace Ranking

variable {α : Type*}

/-- A comparison one can sort by. -/
structure Compares (le : α → α → Bool) : Prop where
  trans : ∀ a b c, le a b → le b c → le a c
  total : ∀ a b, le a b || le b a

/-- No two different members of the list tie. -/
def Untied (le : α → α → Bool) (l : List α) : Prop :=
  ∀ a ∈ l, ∀ b ∈ l, le a b → le b a → a = b

/-- `b` ranks before `a`, which does not rank before it. -/
def ahead (le : α → α → Bool) (a b : α) : Bool := le b a && !le a b

variable {le : α → α → Bool} {l m : List α}

theorem Untied.perm (h : Untied le l) (hp : m.Perm l) : Untied le m :=
  fun a ha b hb => h a (hp.subset ha) b (hp.subset hb)

/-- Members with different keys do not tie, where a tie means equal keys. -/
theorem untied_of_key {κ : Type*} {key : α → κ} (hn : (l.map key).Nodup)
    (hkey : ∀ a b, le a b → le b a → key a = key b) : Untied le l :=
  fun a ha b hb hab hba => List.inj_on_of_nodup_map hn ha hb (hkey a b hab hba)

theorem Compares.refl (hc : Compares le) (a : α) : le a a := by
  simpa using hc.total a a

theorem Compares.sorted (hc : Compares le) (l : List α) :
    (l.mergeSort le).Pairwise fun a b => le a b := List.pairwise_mergeSort hc.trans hc.total l

theorem compares_le [LinearOrder α] : Compares fun a b : α => decide (a ≤ b) where
  trans a b c := by
    simp only [decide_eq_true_eq]
    exact le_trans
  total a b := by
    rw [Bool.or_eq_true, decide_eq_true_eq, decide_eq_true_eq]
    exact le_total a b

/-- Comparing by a key sorts. -/
theorem Compares.comap {κ : Type*} {le : κ → κ → Bool} (hc : Compares le) (key : α → κ) :
    Compares fun a b => le (key a) (key b) where
  trans a b c := hc.trans (key a) (key b) (key c)
  total a b := hc.total (key a) (key b)

/-- Comparing by one comparison, and by another where it ties. -/
def thenBy (le le' : α → α → Bool) (a b : α) : Bool := le a b && (!le b a || le' a b)

theorem thenBy_iff {le le' : α → α → Bool} {a b : α} :
    thenBy le le' a b = true ↔ le a b = true ∧ (le b a = true → le' a b = true) := by
  unfold thenBy
  rw [Bool.and_eq_true, Bool.or_eq_true, Bool.not_eq_true', ← Bool.not_eq_true, imp_iff_not_or]

/-- **Two comparisons one can sort by make one.** -/
theorem Compares.thenBy {le' : α → α → Bool} (hc : Compares le) (hc' : Compares le') :
    Compares (Ranking.thenBy le le') where
  trans a b c := by
    simp only [thenBy_iff]
    rintro ⟨hab, htie⟩ ⟨hbc, htie'⟩
    refine ⟨hc.trans a b c hab hbc, fun hca => hc'.trans a b c (htie ?_) (htie' ?_)⟩
    · exact hc.trans b c a hbc hca
    · exact hc.trans c a b hca hab
  total a b := by
    rw [Bool.or_eq_true, thenBy_iff, thenBy_iff]
    have htotal := (Bool.or_eq_true _ _).mp (hc.total a b)
    have htotal' := (Bool.or_eq_true _ _).mp (hc'.total a b)
    by_cases hab : le a b = true
    · by_cases hba : le b a = true
      · exact htotal'.imp (fun h => ⟨hab, fun _ => h⟩) fun h => ⟨hba, fun _ => h⟩
      · exact Or.inl ⟨hab, fun h => absurd h hba⟩
    · exact Or.inr ⟨htotal.resolve_left hab, fun h => absurd h hab⟩

/-- **A sorted arrangement of the list is the result of the sort.** -/
theorem sort_unique (hc : Compares le) (hu : Untied le l) (hp : m.Perm l)
    (hm : m.Pairwise fun a b => le a b) : l.mergeSort le = m := by
  have hperm := (List.mergeSort_perm l le).trans hp.symm
  refine List.Perm.eq_of_pairwise (fun a b ha hb hab hba => ?_) (hc.sorted l) hm hperm
  exact hu a (List.mem_mergeSort.mp ha) b (hp.subset hb) hab hba

/-- The order of the input does not matter. -/
theorem sort_perm (hc : Compares le) (hu : Untied le l) (hp : m.Perm l) :
    m.mergeSort le = l.mergeSort le :=
  (sort_unique hc hu ((List.mergeSort_perm m le).trans hp) (hc.sorted m)).symm

/-- The front of a sorted list ranks before the rest. -/
theorem take_before_drop (hc : Compares le) (k : Nat) (l : List α) :
    ∀ a ∈ (l.mergeSort le).take k, ∀ b ∈ (l.mergeSort le).drop k, le a b := by
  have hs := hc.sorted l
  rw [← List.take_append_drop k (l.mergeSort le)] at hs
  exact (List.pairwise_append.mp hs).2.2

/-- **More members leave a cut that was full as it is exactly when they rank behind it.** -/
theorem take_sort_append_iff (hc : Compares le) (hu : Untied le (l ++ m)) (hn : (l ++ m).Nodup)
    {k : Nat} (hk : k ≤ l.length) :
    ((l ++ m).mergeSort le).take k = (l.mergeSort le).take k ↔
      ∀ a ∈ (l.mergeSort le).take k, ∀ b ∈ m, le a b := by
  constructor
  · intro h a ha b hb
    rcases List.mem_append.mp ((List.take_append_drop k ((l ++ m).mergeSort le)).symm ▸
      List.mem_mergeSort.mpr (List.mem_append_right l hb)) with hfront | hrest
    · -- a new member in front would be an old one
      rw [h] at hfront
      have hl : b ∈ l := List.mem_mergeSort.mp (List.mem_of_mem_take hfront)
      exact absurd rfl ((List.nodup_append.mp hn).2.2 b hl b hb)
    · exact take_before_drop hc k (l ++ m) a (h ▸ ha) b hrest
  · intro h
    have hlength : ((l.mergeSort le).take k).length = k := by
      rw [List.length_take, List.length_mergeSort, Nat.min_eq_left hk]
    have hsplit : (l ++ m).mergeSort le =
        (l.mergeSort le).take k ++ ((l.mergeSort le).drop k ++ m).mergeSort le := by
      refine sort_unique hc hu ?_ (List.pairwise_append.mpr ⟨(hc.sorted l).sublist
        (List.take_sublist _ _), hc.sorted _, fun a ha b hb => ?_⟩)
      · refine ((List.mergeSort_perm _ le).append_left _).trans ?_
        rw [← List.append_assoc, List.take_append_drop]
        exact (List.mergeSort_perm l le).append_right m
      · rcases List.mem_append.mp (List.mem_mergeSort.mp hb) with hb | hb
        · exact take_before_drop hc k l a ha b hb
        · exact h a ha b hb
    rw [hsplit, List.take_append_of_le_length hlength.ge, List.take_of_length_le hlength.le]

/-- In a sorted list, what ranks ahead of a member stands in front of it. -/
theorem filter_ahead (hc : Compares le) {front back : List α} {a : α}
    (hu : Untied le (front ++ a :: back)) (hn : (front ++ a :: back).Nodup)
    (hs : (front ++ a :: back).Pairwise fun x y => le x y) :
    (front ++ a :: back).filter (ahead le a) = front := by
  obtain ⟨_, hback, hfront⟩ := List.pairwise_append.mp hs
  obtain ⟨_, _, hapart⟩ := List.nodup_append.mp hn
  have ha : a ∈ front ++ a :: back := List.mem_append_right _ List.mem_cons_self
  have hin : ∀ b ∈ front, ahead le a b = true := by
    intro b hb
    have hba : le b a = true := hfront b hb a List.mem_cons_self
    have hab : le a b = false := by
      rw [Bool.eq_false_iff]
      intro hab
      exact hapart b hb a List.mem_cons_self (hu b (List.mem_append_left _ hb) a ha hba hab)
    simp [ahead, hba, hab]
  have hout : ∀ b ∈ a :: back, ¬ ahead le a b = true := by
    intro b hb
    have hab : le a b = true := by
      rcases List.mem_cons.mp hb with rfl | hb
      · exact hc.refl b
      · exact (List.pairwise_cons.mp hback).1 b hb
    simp [ahead, hab]
  rw [List.filter_append, List.filter_eq_self.mpr hin, List.filter_eq_nil_iff.mpr hout,
    List.append_nil]

/-- **The members of the cut are those that fewer members rank ahead of.** -/
theorem mem_take_sort (hc : Compares le) (hu : Untied le l) (hn : l.Nodup) {k : Nat} {a : α} :
    a ∈ (l.mergeSort le).take k ↔ a ∈ l ∧ (l.filter (ahead le a)).length < k := by
  have hp := List.mergeSort_perm l le
  have hrank : ∀ {front back : List α}, l.mergeSort le = front ++ a :: back →
      (l.filter (ahead le a)).length = front.length := by
    intro front back hsplit
    have hfront := filter_ahead hc (hsplit ▸ hu.perm hp) (hsplit ▸ hp.nodup_iff.mpr hn)
      (hsplit ▸ hc.sorted l)
    rw [← (hp.filter (ahead le a)).length_eq, hsplit, hfront]
  constructor
  · intro ha
    obtain ⟨front, back, hcut⟩ := List.append_of_mem ha
    have hsplit : l.mergeSort le = front ++ a :: (back ++ (l.mergeSort le).drop k) := by
      rw [← List.cons_append, ← List.append_assoc, ← hcut, List.take_append_drop]
    refine ⟨List.mem_mergeSort.mp (List.mem_of_mem_take ha), ?_⟩
    have hlen := congrArg List.length hcut
    rw [hrank hsplit]
    simp only [List.length_take, List.length_append, List.length_cons] at hlen
    omega
  · rintro ⟨ha, hlt⟩
    have hmem : a ∈ l.mergeSort le := List.mem_mergeSort.mpr ha
    obtain ⟨front, back, hsplit⟩ := List.append_of_mem hmem
    rw [hrank hsplit] at hlt
    rw [hsplit]
    obtain ⟨n, rfl⟩ := Nat.exists_eq_add_of_lt hlt
    rw [Nat.add_assoc, List.take_length_add_append, List.take_succ_cons]
    exact List.mem_append_right _ List.mem_cons_self

end Ranking
