/-
  File:      LedgerAccounting/Memory/AsOf.lean
  Subject:   `last_entry_id_before` of `snapshot.rs`: the position of a point in time in the list of
             entries, and what `entries_since` takes from there on.

  The entries are in the order they were booked, the point in time is a text, compared with the
  text `created_at`: 9 stands behind 10. Where such texts went back across it, entries with a later
  text stand before the position.

  * `as_of_delta`: what comes behind the position has a later text, and when it is all that has.
-/
import LedgerAccounting.Memory.EntriesSince

namespace LedgerAccounting

/-- The entries of the account and the asset whose `created_at` is not behind the text `asOf`. -/
def matchingUntil (entries : List EntryRecord) (accountId asset asOf : String) :
    List EntryRecord :=
  (matching entries accountId asset).filter fun e => e.createdAt ≤ asOf

/-- `last_entry_id_before`. -/
def lastEntryIdBefore (state : LedgerState) (accountId asset asOf : String) : String :=
  (((matchingUntil state.entries accountId asset asOf).map (·.entryId)).getLast?).getD ""

/-! ## 1. Cutting a list behind the last member that meets a condition -/

section Cut

variable {α : Type} {p : α → Bool} {front back : List α} {e : α}

/-- Behind the last member that meets the condition none does. -/
theorem split_at_last {l : List α} (h : (l.filter p).getLast? = some e) :
    ∃ front back, l = front ++ e :: back ∧ p e = true ∧ ∀ x ∈ back, p x = false := by
  obtain ⟨shown, hshown⟩ := List.getLast?_eq_some_iff.mp h
  obtain ⟨l₁, l₂, rfl, _, hlast⟩ := List.filter_eq_append_iff.mp hshown
  obtain ⟨front, back, rfl, _, he, hback⟩ := List.filter_eq_cons_iff.mp hlast
  refine ⟨l₁ ++ front, back, (List.append_assoc _ _ _).symm, he, fun x hx => ?_⟩
  simpa using List.filter_eq_nil_iff.mp hback x hx

/-- **What stands behind it is all that does not meet the condition**, exactly when no member that
    meets it stands behind one that does not. -/
theorem behind_last_iff (he : p e = true) (hback : ∀ x ∈ back, p x = false) :
    back = (front ++ e :: back).filter (fun x => !p x) ↔
      (front ++ e :: back).Pairwise fun a b => p b = true → p a = true := by
  have hrest : (e :: back).filter (fun x => !p x) = back := by
    rw [List.filter_cons_of_neg (by simp [he]), List.filter_eq_self]
    intro x hx
    simp [hback x hx]
  rw [List.filter_append, hrest, List.self_eq_append_left, List.filter_eq_nil_iff]
  constructor
  · intro hfront
    have hmeet : ∀ a ∈ front, p a = true := fun a ha => by simpa using hfront a ha
    refine List.pairwise_append.mpr ⟨?_, ?_, fun a ha b _ _ => hmeet a ha⟩
    · exact List.pairwise_of_forall_mem_list fun a ha b _ _ => hmeet a ha
    · refine List.pairwise_cons.mpr ⟨fun b _ _ => he, ?_⟩
      refine List.pairwise_of_forall_mem_list fun a _ b hb hmet => ?_
      rw [hback b hb] at hmet
      cases hmet
  · intro h a ha
    have hmet := (List.pairwise_append.mp h).2.2 a ha e List.mem_cons_self he
    simp [hmet]

end Cut

/-! ## 2. The position of a point in time -/

section AsOf

variable {s : LedgerState} {accountId asset asOf : String}

/-- What the position and the entries behind it are: everything, where nothing was created before,
    or a cut of the entries behind the last one that was. -/
theorem lastEntryIdBefore_cases (hids : (s.entries.map (·.entryId)).Nodup)
    (hnamed : ∀ e ∈ s.entries, e.entryId ≠ "") (accountId asset asOf : String) :
    let since := entriesSince s (lastEntryIdBefore s accountId asset asOf)
    (matchingUntil s.entries accountId asset asOf = [] ∧ since = s.entries) ∨
    (∃ front e, s.entries = front ++ e :: since ∧
      e ∈ matchingUntil s.entries accountId asset asOf ∧
      matchingUntil since accountId asset asOf = []) := by
  intro since
  cases hlast : (matchingUntil s.entries accountId asset asOf).getLast? with
  | none =>
    have hnil := List.getLast?_eq_none_iff.mp hlast
    refine Or.inl ⟨hnil, ?_⟩
    show entriesSince s (lastEntryIdBefore s accountId asset asOf) = _
    rw [lastEntryIdBefore, hnil]
    rfl
  | some e =>
    have hid : lastEntryIdBefore s accountId asset asOf = e.entryId := by
      rw [lastEntryIdBefore, List.getLast?_map, hlast]
      rfl
    have hmem := List.mem_of_getLast? hlast
    unfold matchingUntil matching at hlast
    simp only [List.filter_filter] at hlast
    obtain ⟨front, back, hsplit, _, hback⟩ := split_at_last hlast
    have he : e ∈ s.entries := by
      rw [hsplit]
      exact List.mem_append_right _ List.mem_cons_self
    have hfront : ∀ x ∈ front, x.entryId ≠ e.entryId := by
      rw [hsplit, List.map_append, List.map_cons, List.nodup_append] at hids
      exact fun x hx => hids.2.2 _ (List.mem_map_of_mem hx) _ List.mem_cons_self
    have hname : ¬ e.entryId.isEmpty = true := fun hempty =>
      hnamed e he (String.isEmpty_iff.mp hempty)
    have hsince : since = back := by
      show entriesSince s (lastEntryIdBefore s accountId asset asOf) = _
      unfold entriesSince
      rw [hid, if_neg hname, hsplit, sinceFilter_split hfront]
    refine Or.inr ⟨front, e, hsince ▸ hsplit, hmem, ?_⟩
    rw [hsince]
    unfold matchingUntil matching
    simp only [List.filter_filter]
    exact List.filter_eq_nil_iff.mpr fun x hx => by simp [hback x hx]

/-- What is behind the position was created later, and when it is all that was. -/
theorem behind_lastEntryIdBefore (hids : (s.entries.map (·.entryId)).Nodup)
    (hnamed : ∀ e ∈ s.entries, e.entryId ≠ "") (accountId asset asOf : String) :
    let upTo := fun e : EntryRecord => decide (e.createdAt ≤ asOf)
    let all := matching s.entries accountId asset
    let since := entriesSince s (lastEntryIdBefore s accountId asset asOf)
    let delta := matching since accountId asset
    (∀ e ∈ delta, upTo e = false) ∧ (delta = all.filter (fun e => !upTo e) ↔
      all.Pairwise fun a b => upTo b = true → upTo a = true) := by
  intro upTo all since delta
  have hlater : ∀ l : List EntryRecord, matchingUntil l accountId asset asOf = [] →
      ∀ e ∈ matching l accountId asset, upTo e = false := fun l hnil e he =>
    Bool.eq_false_iff.mpr (List.filter_eq_nil_iff.mp hnil e he)
  rcases lastEntryIdBefore_cases hids hnamed accountId asset asOf with
    ⟨hnil, hsince⟩ | ⟨front, e, hsplit, hmem, hnil⟩
  · have hout := hlater _ hnil
    have hsame : delta = all := congrArg (matching · accountId asset) hsince
    rw [hsame]
    refine ⟨hout, fun _ => ?_, fun _ => ?_⟩
    · refine List.pairwise_of_forall_mem_list fun a _ b hb hmet => ?_
      rw [hout b hb] at hmet
      cases hmet
    · exact (List.filter_eq_self.mpr fun e he => by simp [hout e he]).symm
  · have hout := hlater _ hnil
    obtain ⟨hin, hmet⟩ := List.mem_filter.mp hmem
    have hown : matching [e] accountId asset = [e] := by
      unfold matching at hin ⊢
      rw [List.filter_filter] at hin ⊢
      exact List.filter_eq_self.mpr (by simpa using (List.mem_filter.mp hin).2)
    have hcut : all = matching front accountId asset ++ e :: delta := by
      show matching s.entries accountId asset = _
      rw [hsplit, ← List.singleton_append, matching_append, matching_append, hown]
      rfl
    rw [hcut]
    exact ⟨hout, behind_last_iff hmet hout⟩

end AsOf

/-- **The delta behind a point in time.** In every state whose entry ids are distinct and not empty,
    for every account, asset and text `asOf`, the matching entries that `entries_since` takes behind
    `last_entry_id_before` all have a `created_at` behind that text. They are all that have exactly
    when no such matching entry is booked before one whose `created_at` is not behind the text; then
    they make the balance together with the entries whose `created_at` is not. -/
theorem as_of_delta (s : LedgerState) (hids : (s.entries.map (·.entryId)).Nodup)
    (hnamed : ∀ e ∈ s.entries, e.entryId ≠ "") (accountId asset asOf : String) :
    let all := matching s.entries accountId asset
    let since := entriesSince s (lastEntryIdBefore s accountId asset asOf)
    let delta := matching since accountId asset
    (∀ e ∈ delta, asOf < e.createdAt) ∧
    (delta = all.filter (fun e => asOf < e.createdAt) ↔
      all.Pairwise fun a b => b.createdAt ≤ asOf → a.createdAt ≤ asOf) ∧
    ((all.Pairwise fun a b => b.createdAt ≤ asOf → a.createdAt ≤ asOf) →
      computeBalance s accountId asset =
        ((matchingUntil s.entries accountId asset asOf).map (·.signed)).sum +
          (delta.map (·.signed)).sum) := by
  intro all since delta
  obtain ⟨hlater, hiff⟩ := behind_lastEntryIdBefore hids hnamed accountId asset asOf
  have hafter : all.filter (fun e => asOf < e.createdAt) =
      all.filter fun e => !decide (e.createdAt ≤ asOf) :=
    List.filter_congr fun e _ => by
      rw [← decide_not]
      exact decide_eq_decide.mpr not_le.symm
  simp only [decide_eq_true_eq, decide_eq_false_iff_not, not_le] at hlater hiff
  rw [← hafter] at hiff
  refine ⟨hlater, hiff, fun hsorted => ?_⟩
  have hdelta : delta = _ := hiff.mpr hsorted
  rw [hdelta, computeBalance_signed, hafter]
  exact signed_split (fun e : EntryRecord => decide (e.createdAt ≤ asOf)) all

/-- Three entries of one account, stamped upwards. -/
def sampleDated : LedgerState :=
  { LedgerState.new with
    entries := [("e1", 1, "100"), ("e2", 2, "200"), ("e3", 3, "300")].map fun (id, n, at') =>
      ⟨id, "p", "acct", "DEBIT", n, "USD", n, genesisHash, id, at'⟩ }

theorem as_of_delta_sample :
    lastEntryIdBefore sampleDated "acct" "USD" "250" = "e2" ∧
    computeBalance sampleDated "acct" "USD" =
      ((matchingUntil sampleDated.entries "acct" "USD" "250").map (·.signed)).sum +
        ((matching (entriesSince sampleDated "e2") "acct" "USD").map (·.signed)).sum :=
  ⟨by decide +kernel, (as_of_delta sampleDated (by decide +kernel) (by decide +kernel) "acct" "USD"
    "250").2.2 (by decide +kernel)⟩

end LedgerAccounting
