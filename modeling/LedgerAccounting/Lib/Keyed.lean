/-
  File:      LedgerAccounting/Lib/Keyed.lean
  Subject:   Lists of rows with a key, over any type `ρ` of rows and any type `κ` of keys, and the
             association lists and groups that a pass over the rows builds.

  * `rowAt_perm`: where the keys are distinct, the row of a key does not depend on the order.
  * `lookup_indexed`: an index built row by row answers with the row of the key.
  * `lookup_grouped`: groups built row by row hold the rows of their key, in order.
  * `firsts_keys`: a pass that skips the keys it has seen makes one value for every key.
  * `keys_perm`, `values_perm`: an association list and rows that answer alike have the same keys
    and the same values.
-/
import Mathlib.Data.Finset.Insert
import Mathlib.Data.List.AList
import Mathlib.Data.List.Induction

namespace Keyed

variable {ρ κ β : Type*} [DecidableEq κ] (key : ρ → κ)

/-! ## 1. The row of a key -/

/-- The first row with the key. -/
def rowAt (rows : List ρ) (k : κ) : Option ρ := rows.find? fun r => key r == k

variable {key}

theorem rowAt_mem {rows : List ρ} {k : κ} {r : ρ} (h : rowAt key rows k = some r) :
    r ∈ rows ∧ key r = k := by
  have hkey := List.find?_some h
  exact ⟨List.mem_of_find?_eq_some h, by simpa using hkey⟩

theorem rowAt_eq_none {rows : List ρ} {k : κ} :
    rowAt key rows k = none ↔ ∀ r ∈ rows, key r ≠ k := by
  unfold rowAt
  rw [List.find?_eq_none]
  simp

theorem rowAt_append (rows more : List ρ) (k : κ) :
    rowAt key (rows ++ more) k = (rowAt key rows k).or (rowAt key more k) := List.find?_append

theorem rowAt_singleton (r : ρ) (k : κ) :
    rowAt key [r] k = if key r = k then some r else none := by
  unfold rowAt
  by_cases h : key r = k
  · simp [h]
  · simp [h]

/-- A row is the row of its key, where the keys are distinct. -/
theorem rowAt_of_mem {rows : List ρ} (hn : (rows.map key).Nodup) {r : ρ} (h : r ∈ rows) :
    rowAt key rows (key r) = some r := by
  cases hr : rowAt key rows (key r) with
  | none => exact absurd rfl (rowAt_eq_none.mp hr r h)
  | some r' =>
    obtain ⟨hmem, hkey⟩ := rowAt_mem hr
    rw [List.inj_on_of_nodup_map hn hmem h hkey]

theorem rowAt_eq_some {rows : List ρ} (hn : (rows.map key).Nodup) {k : κ} {r : ρ} :
    rowAt key rows k = some r ↔ r ∈ rows ∧ key r = k := by
  constructor
  · exact rowAt_mem
  · intro h
    obtain ⟨hmem, rfl⟩ := h
    exact rowAt_of_mem hn hmem

/-- **Where the keys are distinct, the row of a key does not depend on the order of the rows.** -/
theorem rowAt_perm {rows rows' : List ρ} (hn : (rows.map key).Nodup) (hp : rows'.Perm rows)
    (k : κ) : rowAt key rows' k = rowAt key rows k := by
  have hn' : (rows'.map key).Nodup := ((hp.map key).nodup_iff).mpr hn
  refine Option.ext fun r => ?_
  rw [rowAt_eq_some hn', rowAt_eq_some hn, hp.mem_iff]

/-! ## 2. Indexes -/

/-- The index a pass over the rows builds; a later row takes the place of an earlier one. -/
def indexed (key : ρ → κ) (value : ρ → β) (rows : List ρ) : AList (fun _ : κ => β) :=
  rows.foldl (fun m r => m.insert (key r) (value r)) ∅

/-- **An index built row by row answers with the row of the key**, where the keys are distinct. -/
theorem lookup_indexed (value : ρ → β) {rows : List ρ} (hn : (rows.map key).Nodup) (k : κ) :
    (indexed key value rows).lookup k = (rowAt key rows k).map value := by
  unfold indexed
  induction rows using List.reverseRecOn with
  | nil => rfl
  | append_singleton rows r ih =>
    rw [List.map_append, List.nodup_append] at hn
    rw [List.foldl_append, rowAt_append, rowAt_singleton]
    by_cases hk : key r = k
    · subst hk
      have hnone : rowAt key rows (key r) = none := by
        refine rowAt_eq_none.mpr fun r' hr' heq => ?_
        exact hn.2.2 _ (List.mem_map_of_mem hr') _ (List.mem_singleton_self _) heq
      rw [hnone]
      simp
    · rw [List.foldl_cons, List.foldl_nil, AList.lookup_insert_ne (Ne.symm hk), ih hn.1]
      simp [hk]

/-! ## 3. Groups -/

/-- One row joins the group of its key. -/
def addToGroup (key : ρ → κ) (m : AList (fun _ : κ => List ρ)) (r : ρ) :
    AList (fun _ : κ => List ρ) :=
  m.insert (key r) ((m.lookup (key r)).getD [] ++ [r])

/-- **Groups built row by row hold the rows of their key, in order.** -/
theorem lookup_grouped (rows : List ρ) (k : κ) :
    ((rows.foldl (addToGroup key) ∅).lookup k).getD [] = rows.filter fun r => key r == k := by
  induction rows using List.reverseRecOn with
  | nil => rfl
  | append_singleton rows r ih =>
    rw [List.foldl_append, List.filter_append, List.foldl_cons, List.foldl_nil, addToGroup]
    by_cases hk : key r = k
    · subst hk
      rw [AList.lookup_insert, ih]
      simp
    · rw [AList.lookup_insert_ne (Ne.symm hk), ih]
      simp [hk]

/-! ## 4. The first row of every key -/

/-- One row, in a pass that makes a value of the first row of every key: the keys seen, and the
    values made, so far. A value may depend on how many there are before it. -/
def firstStep (key : ρ → κ) (make : Nat → ρ → β) (acc : Finset κ × List β) (r : ρ) :
    Finset κ × List β :=
  if key r ∈ acc.1 then acc else (insert (key r) acc.1, acc.2 ++ [make acc.2.length r])

def firsts (key : ρ → κ) (make : Nat → ρ → β) (rows : List ρ) : List β :=
  (rows.foldl (firstStep key make) (∅, [])).2

section Firsts

variable {make : Nat → ρ → β}

variable (key make) in
theorem firstStep_cases (acc : Finset κ × List β) (r : ρ) :
    (key r ∈ acc.1 ∧ firstStep key make acc r = acc) ∨
    (key r ∉ acc.1 ∧ firstStep key make acc r =
      (insert (key r) acc.1, acc.2 ++ [make acc.2.length r])) := by
  by_cases hseen : key r ∈ acc.1
  · exact Or.inl ⟨hseen, if_pos hseen⟩
  · exact Or.inr ⟨hseen, if_neg hseen⟩

/-- Every value is made of a row. -/
theorem firsts_forall {P : β → Prop} {rows : List ρ} (h : ∀ r ∈ rows, ∀ n, P (make n r)) :
    ∀ b ∈ firsts key make rows, P b := by
  unfold firsts
  induction rows using List.reverseRecOn with
  | nil => exact fun _ hb => absurd hb List.not_mem_nil
  | append_singleton rows r ih =>
    have hrows := ih fun r' hr' => h r' (List.mem_append_left _ hr')
    rw [List.foldl_append, List.foldl_cons, List.foldl_nil]
    rcases firstStep_cases key make
      (rows.foldl (firstStep key make) (∅, [])) r with ⟨_, hstep⟩ | ⟨_, hstep⟩
    · rw [hstep]
      exact hrows
    · rw [hstep]
      intro b hb
      rcases List.mem_append.mp hb with hb | hb
      · exact hrows b hb
      · rw [List.mem_singleton.mp hb]
        exact h r (List.mem_append_right _ List.mem_cons_self) _

/-- After a pass over the rows: the values show the keys seen, none twice, and those are the keys
    of the rows. -/
structure Passed (key : ρ → κ) (out : β → κ) (rows : List ρ) (acc : Finset κ × List β) : Prop where
  nodup : (acc.2.map out).Nodup
  shown : ∀ k, k ∈ acc.2.map out ↔ k ∈ acc.1
  seen : ∀ k, k ∈ acc.1 ↔ k ∈ rows.map key

theorem Passed.step {out : β → κ} {rows : List ρ} {acc : Finset κ × List β}
    (h : Passed key out rows acc) {r : ρ} (hout : ∀ n, out (make n r) = key r) :
    Passed key out (rows ++ [r]) (firstStep key make acc r) := by
  have hkeys : ∀ k, k ∈ (rows ++ [r]).map key ↔ k = key r ∨ k ∈ acc.1 := by
    intro k
    rw [h.seen, List.map_append, List.mem_append, List.map_singleton, List.mem_singleton, or_comm]
  rcases firstStep_cases key make acc r with ⟨hseen, hstep⟩ | ⟨hnew, hstep⟩
  · rw [hstep]
    refine ⟨h.nodup, h.shown, fun k => ?_⟩
    rw [hkeys]
    refine ⟨Or.inr, fun hk => hk.elim (fun heq => ?_) id⟩
    rw [heq]
    exact hseen
  · rw [hstep]
    refine ⟨?_, fun k => ?_, fun k => ?_⟩
    · rw [List.map_append, List.map_singleton, hout, ← List.concat_eq_append, List.nodup_concat]
      exact ⟨fun hmem => hnew ((h.shown _).mp hmem), h.nodup⟩
    · rw [List.map_append, List.map_singleton, hout, List.mem_append, List.mem_singleton, h.shown,
        Finset.mem_insert, or_comm]
    · rw [hkeys, Finset.mem_insert]

/-- **One value for every key**: where a value shows the key of the row it is made of, the values
    show every key of the rows, and none twice. -/
theorem firsts_keys {out : β → κ} {rows : List ρ}
    (hout : ∀ r ∈ rows, ∀ n, out (make n r) = key r) :
    ((firsts key make rows).map out).Nodup ∧
      ∀ k, k ∈ (firsts key make rows).map out ↔ k ∈ rows.map key := by
  have hpassed : Passed key out rows (rows.foldl (firstStep key make) (∅, [])) := by
    induction rows using List.reverseRecOn with
    | nil => exact ⟨List.nodup_nil, fun _ => by simp, fun _ => by simp⟩
    | append_singleton rows r ih =>
      rw [List.foldl_append, List.foldl_cons, List.foldl_nil]
      exact (ih fun r' hr' => hout r' (List.mem_append_left _ hr')).step
        (hout r (List.mem_append_right _ List.mem_cons_self))
  exact ⟨hpassed.nodup, fun k => (hpassed.shown k).trans (hpassed.seen k)⟩

end Firsts

/-! ## 5. Association lists and rows that answer alike -/

/-- **An association list and rows that answer alike have the same keys**, of the entries and rows
    that meet a condition. -/
theorem keys_perm {m : AList (fun _ : κ => β)} {rows : List ρ} (hn : (rows.map key).Nodup)
    {value : ρ → β} (h : ∀ k, m.lookup k = (rowAt key rows k).map value) (p : β → Bool) :
    ((m.entries.filter fun e => p e.2).map Sigma.fst).Perm
      ((rows.filter fun r => p (value r)).map key) := by
  have hkeys : (m.entries.map Sigma.fst).Nodup := m.nodupKeys
  have hleft : ((m.entries.filter fun e => p e.2).map Sigma.fst).Nodup :=
    hkeys.sublist (List.filter_sublist.map _)
  have hright : ((rows.filter fun r => p (value r)).map key).Nodup :=
    hn.sublist (List.filter_sublist.map _)
  refine (List.perm_ext_iff_of_nodup hleft hright).mpr fun k => ?_
  constructor
  · intro hk
    obtain ⟨e, he, rfl⟩ := List.mem_map.mp hk
    obtain ⟨hmem, hp⟩ := List.mem_filter.mp he
    have hlookup : m.lookup e.1 = some e.2 := AList.mem_lookup_iff.mpr hmem
    rw [h e.1] at hlookup
    obtain ⟨r, hr, hvalue⟩ := Option.map_eq_some_iff.mp hlookup
    obtain ⟨hrows, hkey⟩ := rowAt_mem hr
    refine List.mem_map.mpr ⟨r, List.mem_filter.mpr ⟨hrows, ?_⟩, hkey⟩
    rw [hvalue]
    exact hp
  · intro hk
    obtain ⟨r, hr, rfl⟩ := List.mem_map.mp hk
    obtain ⟨hmem, hp⟩ := List.mem_filter.mp hr
    have hlookup : m.lookup (key r) = some (value r) := by
      rw [h, rowAt_of_mem hn hmem]
      rfl
    exact List.mem_map.mpr ⟨⟨key r, value r⟩,
      List.mem_filter.mpr ⟨AList.mem_lookup_iff.mp hlookup, hp⟩, rfl⟩

/-- **They have the same values** too. -/
theorem values_perm {m : AList (fun _ : κ => β)} {rows : List ρ} (hn : (rows.map key).Nodup)
    {value : ρ → β} (h : ∀ k, m.lookup k = (rowAt key rows k).map value) :
    (m.entries.map (·.2)).Perm (rows.map value) := by
  have hnodup : (rows.map fun r => (⟨key r, value r⟩ : Sigma fun _ : κ => β)).Nodup := by
    refine List.Nodup.of_map Sigma.fst ?_
    rw [List.map_map]
    exact hn
  have hperm : m.entries.Perm (rows.map fun r => ⟨key r, value r⟩) := by
    refine (List.perm_ext_iff_of_nodup m.nodupKeys.nodup hnodup).mpr fun e => ?_
    rw [← AList.mem_lookup_iff, h e.1, List.mem_map, Option.mem_def, Option.map_eq_some_iff]
    simp only [rowAt_eq_some hn]
    constructor
    · rintro ⟨r, ⟨hr, hkey⟩, hvalue⟩
      exact ⟨r, hr, Sigma.ext hkey (heq_of_eq hvalue)⟩
    · rintro ⟨r, hr, rfl⟩
      exact ⟨r, ⟨hr, rfl⟩, rfl⟩
  have hvalues := hperm.map (·.2)
  rw [List.map_map] at hvalues
  exact hvalues

end Keyed
