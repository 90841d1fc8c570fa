/-
  File:      LedgerAccounting/Lib/Paging.lean
  Subject:   Paging through a list with increasing keys by cursor, while the list may grow at its
             end between two pages.

  A page is the first `limit` elements whose key is above the cursor; its next cursor is the key
  of its last element, if something is left. `walk` follows the cursor through the contents the
  list has at the successive fetches.

  * `walk_increasing`, `walk_mem`: what a walk has seen is in order, and was there.
  * `walk_complete`: a walk that has ended has seen all that was there at its first fetch.
  * `walk_still`: over a list that does not change it ends, and has seen the list.
  * `walk_ended`: so has every walk that has ended over such a list.
-/
import Mathlib.Data.List.Basic
import Mathlib.Data.List.Chain
import Mathlib.Data.List.Pairwise
import Mathlib.Order.Lattice

namespace Paging

variable {α κ : Type*} [LinearOrder κ] (key : α → κ) (limit : Nat)

/-! ## 1. One page -/

/-- The keys increase along the list. -/
def Increasing (l : List α) : Prop := l.Pairwise fun a b => key a < key b

/-- The elements above the cursor. -/
def after (cursor : Option κ) (l : List α) : List α :=
  l.filter fun a => cursor.all fun c => decide (c < key a)

/-- The cursor of the next page, when `rest` is what stands above the cursor of this one. -/
def next (rest : List α) : Option κ :=
  if limit < rest.length then ((rest.take limit).getLast?).map key else none

variable {key limit}

theorem mem_after {cursor : Option κ} {l : List α} {a : α} :
    a ∈ after key cursor l ↔ a ∈ l ∧ ∀ c ∈ cursor, c < key a := by
  unfold after
  rw [List.mem_filter]
  cases cursor <;> simp

theorem Increasing.filter {l : List α} (h : Increasing key l) (p : α → Bool) :
    Increasing key (l.filter p) :=
  List.Pairwise.filter p h

theorem Increasing.after {l : List α} (h : Increasing key l) (cursor : Option κ) :
    Increasing key (after key cursor l) :=
  h.filter _

omit [LinearOrder κ] in
/-- Keys that number the list increase. -/
theorem increasing_of_numbered {f : α → Nat} {l : List α} {m n : Nat}
    (h : l.map f = List.range' m n) : Increasing f l := by
  have hp : (l.map f).Pairwise (· < ·) := by
    rw [h]
    exact List.pairwise_lt_range'
  exact List.pairwise_map.mp hp

omit [LinearOrder κ] in
theorem numbered_bounds {f : α → Nat} {l : List α} {m n : Nat} (h : l.map f = List.range' m n)
    {a : α} (ha : a ∈ l) : m ≤ f a ∧ f a < m + n := by
  rw [← List.mem_range'_1, ← h]
  exact List.mem_map_of_mem ha

/-- In a list with increasing keys, the elements after the last key of a part at its front are the
    other part. -/
theorem filter_after {old new : List α} {n : κ} (h : Increasing key (old ++ new))
    (hn : old.getLast?.map key = some n) :
    (old ++ new).filter (fun e => decide (n < key e)) = new := by
  obtain ⟨last, hlast, rfl⟩ := Option.map_eq_some_iff.mp hn
  obtain ⟨front, rfl⟩ := List.getLast?_eq_some_iff.mp hlast
  unfold Increasing at h
  rw [List.pairwise_append] at h
  obtain ⟨hold, _, hcross⟩ := h
  rw [List.pairwise_append] at hold
  rw [List.filter_append, List.filter_eq_nil_iff.mpr, List.filter_eq_self.mpr, List.nil_append]
  · intro e he
    exact decide_eq_true (hcross last (by simp) e he)
  · intro e he
    rw [decide_eq_true_iff]
    rcases List.mem_append.mp he with hfront | hfront
    · exact lt_asymm (hold.2.2 e hfront last (by simp))
    · rw [List.mem_singleton.mp hfront]
      exact lt_irrefl _

/-- In a list with increasing keys, the elements up to one of them are that one and its front. -/
theorem filter_upTo {front rest : List α} {e : α} (h : Increasing key (front ++ e :: rest)) :
    (front ++ e :: rest).filter (fun a => decide (key a ≤ key e)) = front ++ [e] := by
  unfold Increasing at h
  rw [List.pairwise_append, List.pairwise_cons] at h
  obtain ⟨_, ⟨hrest, _⟩, hfront⟩ := h
  rw [List.filter_append, List.filter_eq_self.mpr, List.filter_cons_of_pos,
    List.filter_eq_nil_iff.mpr]
  · intro a ha
    simpa using hrest a ha
  · simp
  · intro a ha
    exact decide_eq_true (hfront a ha e List.mem_cons_self).le

omit [LinearOrder κ] in
/-- A next cursor is the key of the last element of the page. -/
theorem next_eq_some {rest : List α} {c : κ} (h : next key limit rest = some c) :
    limit < rest.length ∧ (rest.take limit).getLast?.map key = some c := by
  unfold next at h
  split at h
  · exact ⟨‹_›, h⟩
  · cases h

omit [LinearOrder κ] in
theorem next_eq_none (hlimit : 0 < limit) {rest : List α} (h : next key limit rest = none) :
    rest.length ≤ limit := by
  by_contra hlt
  unfold next at h
  rw [if_pos (Nat.lt_of_not_le hlt), Option.map_eq_none_iff, List.getLast?_eq_none_iff,
    List.take_eq_nil_iff] at h
  rcases h with h | h
  · omega
  · subst h
    simp at hlt

/-- **The next cursor cuts exactly behind the page.** -/
theorem after_next {rest : List α} (h : Increasing key rest) {c : κ}
    (hc : next key limit rest = some c) : after key (some c) rest = rest.drop limit := by
  have hcut := List.take_append_drop limit rest
  rw [← hcut] at h
  have hfilter := filter_after h (next_eq_some hc).2
  rw [hcut] at hfilter
  exact hfilter

/-- The next cursor is above the cursor and at least every key of the page. -/
theorem next_bounds {cursor : Option κ} {l : List α} (h : Increasing key l) {c : κ}
    (hc : next key limit (after key cursor l) = some c) :
    (∀ c' ∈ cursor, c' < c) ∧ ∀ a ∈ (after key cursor l).take limit, key a ≤ c := by
  obtain ⟨last, hlast, rfl⟩ := Option.map_eq_some_iff.mp (next_eq_some hc).2
  obtain ⟨front, hfront⟩ := List.getLast?_eq_some_iff.mp hlast
  have hin : last ∈ after key cursor l := by
    refine List.mem_of_mem_take (i := limit) ?_
    rw [hfront]
    exact List.mem_append_right _ List.mem_cons_self
  refine ⟨(mem_after.mp hin).2, fun a ha => ?_⟩
  have hinc : Increasing key ((after key cursor l).take limit) :=
    (h.after cursor).sublist (List.take_sublist _ _)
  unfold Increasing at hinc
  rw [hfront, List.pairwise_append] at hinc
  rw [hfront] at ha
  rcases List.mem_append.mp ha with ha | ha
  · exact (hinc.2.2 a ha last List.mem_cons_self).le
  · rw [List.mem_singleton.mp ha]

/-- What stands above a next cursor stands above the cursor before it. -/
theorem after_after {cursor : Option κ} {c : κ} (h : ∀ c' ∈ cursor, c' < c) (l : List α) :
    after key (some c) (after key cursor l) = after key (some c) l := by
  unfold after
  rw [List.filter_filter]
  refine List.filter_congr fun a _ => ?_
  cases cursor with
  | none => simp
  | some c' =>
    simp only [Option.all_some, Bool.and_eq_left_iff_imp, decide_eq_true_eq]
    exact (h c' rfl).trans

/-! ## 2. Walks -/

variable (key limit)

/-- The elements seen on the pages of a walk, over the contents at the successive fetches. -/
def walk : Option κ → List (List α) → List α
  | _, [] => []
  | cursor, l :: ls =>
    (after key cursor l).take limit ++
      match next key limit (after key cursor l) with
      | none => []
      | some c => walk (some c) ls

/-- Whether the walk ends, with a page that has no next cursor, before the fetches do. -/
def ends : Option κ → List (List α) → Bool
  | _, [] => false
  | cursor, l :: ls =>
    match next key limit (after key cursor l) with
    | none => true
    | some c => ends (some c) ls

variable {key limit}

theorem walk_cons (cursor : Option κ) (l : List α) (ls : List (List α)) :
    walk key limit cursor (l :: ls) =
      (after key cursor l).take limit ++
        match next key limit (after key cursor l) with
        | none => []
        | some c => walk key limit (some c) ls := rfl

theorem ends_cons (cursor : Option κ) (l : List α) (ls : List (List α)) :
    ends key limit cursor (l :: ls) =
      match next key limit (after key cursor l) with
      | none => true
      | some c => ends key limit (some c) ls := rfl

/-- What a walk sees stands above its cursor and was there at one of the fetches. -/
theorem walk_mem {cursor : Option κ} {ls : List (List α)} (h : ∀ l ∈ ls, Increasing key l) {a : α}
    (ha : a ∈ walk key limit cursor ls) : (∀ c ∈ cursor, c < key a) ∧ ∃ l ∈ ls, a ∈ l := by
  induction ls generalizing cursor with
  | nil => cases ha
  | cons l ls ih =>
    rw [List.forall_mem_cons] at h
    unfold walk at ha
    rcases List.mem_append.mp ha with ha | ha
    · have hin := mem_after.mp (List.mem_of_mem_take ha)
      exact ⟨hin.2, l, List.mem_cons_self, hin.1⟩
    · cases hc : next key limit (after key cursor l) with
      | none =>
        rw [hc] at ha
        cases ha
      | some c =>
        rw [hc] at ha
        obtain ⟨hab, l', hl', hal'⟩ := ih h.2 ha
        exact ⟨fun c' hc' => ((next_bounds h.1 hc).1 c' hc').trans (hab c rfl), l',
          List.mem_cons_of_mem _ hl', hal'⟩

/-- **What a walk sees is in increasing order**, so nothing is seen twice. -/
theorem walk_increasing {cursor : Option κ} {ls : List (List α)}
    (h : ∀ l ∈ ls, Increasing key l) : Increasing key (walk key limit cursor ls) := by
  induction ls generalizing cursor with
  | nil => exact List.Pairwise.nil
  | cons l ls ih =>
    rw [List.forall_mem_cons] at h
    unfold walk Increasing
    rw [List.pairwise_append]
    refine ⟨(h.1.after cursor).sublist (List.take_sublist _ _), ?_, fun a ha b hb => ?_⟩
    · cases next key limit (after key cursor l) with
      | none => exact List.Pairwise.nil
      | some c => exact ih h.2
    · cases hc : next key limit (after key cursor l) with
      | none =>
        rw [hc] at hb
        cases hb
      | some c =>
        rw [hc] at hb
        exact ((next_bounds h.1 hc).2 a ha).trans_lt ((walk_mem h.2 hb).1 c rfl)

/-- **A walk that ends has seen everything above its cursor** that was there at the first fetch,
    when nothing is taken away between the fetches. -/
theorem walk_complete (hlimit : 0 < limit) {cursor : Option κ} {l : List α} {ls : List (List α)}
    (h : ∀ m ∈ l :: ls, Increasing key m) (hgrow : (l :: ls).IsChain (· <+: ·))
    (hends : ends key limit cursor (l :: ls) = true) :
    ∀ a ∈ after key cursor l, a ∈ walk key limit cursor (l :: ls) := by
  induction ls generalizing cursor l with
  | nil =>
    intro a ha
    unfold ends at hends
    unfold walk
    cases hc : next key limit (after key cursor l) with
    | none =>
      rw [List.take_of_length_le (next_eq_none hlimit hc)]
      exact List.mem_append_left _ ha
    | some c =>
      rw [hc] at hends
      cases hends
  | cons m ls ih =>
    intro a ha
    unfold ends at hends
    unfold walk
    cases hc : next key limit (after key cursor l) with
    | none =>
      rw [List.take_of_length_le (next_eq_none hlimit hc)]
      exact List.mem_append_left _ ha
    | some c =>
      rw [hc] at hends
      rw [List.forall_mem_cons] at h
      rw [List.isChain_cons_cons] at hgrow
      rw [List.mem_append]
      rw [← List.take_append_drop limit (after key cursor l), List.mem_append] at ha
      rcases ha with ha | ha
      · exact Or.inl ha
      · -- what is left of this page stands above its cursor at the next fetch
        rw [← after_next (h.1.after cursor) hc] at ha
        obtain ⟨hal, hac⟩ := mem_after.mp ha
        have ham : a ∈ m := hgrow.1.subset (mem_after.mp hal).1
        exact Or.inr (ih h.2 hgrow.2 hends a (mem_after.mpr ⟨ham, hac⟩))

/-- **Over a list that does not change the walk ends and sees what is above its cursor**, whatever
    fetches beyond that it is given. -/
theorem walk_still (hlimit : 0 < limit) {l : List α} (h : Increasing key l) (n : Nat)
    (cursor : Option κ) (hn : (after key cursor l).length < n) :
    ends key limit cursor (List.replicate n l) = true ∧
      walk key limit cursor (List.replicate n l) = after key cursor l := by
  induction n generalizing cursor with
  | zero => exact absurd hn (Nat.not_lt_zero _)
  | succ n ih =>
    rw [List.replicate_succ]
    unfold ends walk
    cases hc : next key limit (after key cursor l) with
    | none =>
      rw [List.take_of_length_le (next_eq_none hlimit hc)]
      exact ⟨rfl, List.append_nil _⟩
    | some c =>
      have hrest : after key (some c) l = (after key cursor l).drop limit := by
        rw [← after_next (h.after cursor) hc, after_after (next_bounds h hc).1]
      have hlt : (after key (some c) l).length < n := by
        have hlong := (next_eq_some hc).1
        rw [hrest, List.length_drop]
        omega
      obtain ⟨hends, hwalk⟩ := ih (some c) hlt
      refine ⟨hends, ?_⟩
      show _ ++ walk key limit (some c) (List.replicate n l) = _
      rw [hwalk, hrest]
      exact List.take_append_drop _ _

theorem Increasing.nodup {l : List α} (h : Increasing key l) : l.Nodup :=
  h.imp fun hlt heq => absurd (congrArg key heq) hlt.ne

/-- **A walk that has ended over a list that does not change has seen the list**, whatever number
    of fetches that took. -/
theorem walk_ended (hlimit : 0 < limit) {l : List α} (h : Increasing key l) {n : Nat}
    (hends : ends key limit none (List.replicate n l) = true) :
    (walk key limit none (List.replicate n l)).Perm l := by
  cases n with
  | zero => cases hends
  | succ n =>
    have hall : ∀ m ∈ List.replicate (n + 1) l, Increasing key m := by
      intro m hm
      rw [List.eq_of_mem_replicate hm]
      exact h
    have hnodup := (show Increasing key (walk key limit none (List.replicate (n + 1) l)) from
      walk_increasing hall).nodup
    refine (List.perm_ext_iff_of_nodup hnodup h.nodup).mpr fun a => ⟨fun ha => ?_, fun ha => ?_⟩
    · obtain ⟨_, m, hm, ham⟩ := walk_mem hall ha
      rw [List.eq_of_mem_replicate hm] at ham
      exact ham
    · have hchain : (l :: List.replicate n l).IsChain (· <+: ·) :=
        List.isChain_replicate_of_rel (n + 1) List.prefix_rfl
      exact walk_complete hlimit hall hchain hends a (mem_after.mpr ⟨ha, by simp⟩)

end Paging
