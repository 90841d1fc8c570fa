/-
  File:      LedgerAccounting/Memory/EntriesSince.lean
  Subject:   The two ways of taking what came after a snapshot: by its last entry id
             (`entries_since`) and by its last sequence number (`balance_via_snapshot`).

  The last entry of a snapshot is the last matching one of the state it was taken in, not the last
  overall. The entries after it are the rest of that state, of which none matches, and all that
  came later; cut by the sequence number, only what came later is left at once.

  * `deltas_agree`: both deltas are the same entries, and lead from the snapshot to the balance.
-/
import LedgerAccounting.Memory.SnapshotDelta

namespace LedgerAccounting

open Runs

/-! ## 1. The filter of `entries_since` -/

/-- Once the entry is found everything passes. -/
theorem sinceFilter_found (id : String) (l : List EntryRecord) : sinceFilter id true l = l := by
  induction l with
  | nil => rfl
  | cons e l ih =>
    unfold sinceFilter
    rw [if_pos rfl, ih]

/-- The filter cuts behind the first entry with the id. -/
theorem sinceFilter_split {front rest : List EntryRecord} {e : EntryRecord}
    (hfront : ∀ x ∈ front, x.entryId ≠ e.entryId) :
    sinceFilter e.entryId false (front ++ e :: rest) = rest := by
  induction front with
  | nil =>
    rw [List.nil_append]
    unfold sinceFilter
    rw [if_neg Bool.false_ne_true, if_pos (beq_self_eq_true _), sinceFilter_found]
  | cons x front ih =>
    rw [List.forall_mem_cons] at hfront
    rw [List.cons_append]
    unfold sinceFilter
    rw [if_neg Bool.false_ne_true, if_neg (by simpa using hfront.1), ih hfront.2]

/-! ## 2. The last matching entry -/

/-- Behind the last matching entry none matches. -/
theorem matching_split {l : List EntryRecord} {accountId asset : String} {e : EntryRecord}
    (h : (matching l accountId asset).getLast? = some e) :
    ∃ front back, l = front ++ e :: back ∧ matching back accountId asset = [] := by
  obtain ⟨shown, hshown⟩ := List.getLast?_eq_some_iff.mp h
  unfold matching at hshown ⊢
  simp only [List.filter_filter] at hshown ⊢
  obtain ⟨l₁, l₂, rfl, _, hlast⟩ := List.filter_eq_append_iff.mp hshown
  obtain ⟨front, back, rfl, _, _, hback⟩ := List.filter_eq_cons_iff.mp hlast
  exact ⟨l₁ ++ front, back, (List.append_assoc _ _ _).symm, hback⟩

/-! ## 3. Both deltas -/

section Deltas

variable {digest : ByteArray → String} {salt : String} {s s' : LedgerState}

/-- What the two deltas are cut from: the matching entries of the state of the snapshot, and those
    that came later. -/
theorem since_snapshot (hids : (s.entries.map (·.entryId)).Nodup)
    (hnamed : ∀ e ∈ s.entries, e.entryId ≠ "") {new : List EntryRecord}
    (hnew : s.entries ++ new = s'.entries) (accountId asset now : String) :
    matching (entriesSince s' (buildSnapshot s accountId asset now).lastEntryId) accountId asset =
      matching new accountId asset := by
  rw [buildSnapshot_lastEntryId]
  cases hlast : (matching s.entries accountId asset).getLast? with
  | none =>
    -- an empty snapshot has no last entry id, and everything came after it
    have hnil := List.getLast?_eq_none_iff.mp hlast
    show matching s'.entries accountId asset = _
    rw [← hnew, matching_append, hnil, List.nil_append]
  | some e =>
    obtain ⟨front, back, hsplit, hback⟩ := matching_split hlast
    have he : e ∈ s.entries := by
      rw [hsplit]
      exact List.mem_append_right _ List.mem_cons_self
    have hfront : ∀ x ∈ front, x.entryId ≠ e.entryId := by
      rw [hsplit, List.map_append, List.map_cons, List.nodup_append] at hids
      exact fun x hx => hids.2.2 _ (List.mem_map_of_mem hx) _ List.mem_cons_self
    have hname : e.entryId.isEmpty = false := by
      rw [Bool.eq_false_iff]
      exact fun hempty => hnamed e he (String.isEmpty_iff.mp hempty)
    have hsince : entriesSince s' e.entryId = back ++ new := by
      unfold entriesSince
      rw [if_neg (by rw [hname]; exact Bool.false_ne_true), ← hnew, hsplit, List.append_assoc,
        List.cons_append, sinceFilter_split hfront]
    show matching (entriesSince s' e.entryId) accountId asset = _
    rw [hsince, matching_append, hback, List.nil_append]

/-- The matching entries above the last sequence number are those that came later. -/
theorem above_snapshot {recs : List PostingRecord} (hbook : Bookkeeping s' recs)
    {new : List EntryRecord} (hnew : s.entries ++ new = s'.entries)
    (accountId asset now : String) :
    (matching s'.entries accountId asset).filter
        (fun e => (buildSnapshot s accountId asset now).lastSequence < e.sequenceNumber) =
      matching new accountId asset := by
  have hinc := hbook.increasing accountId asset
  rw [buildSnapshot_lastSequence]
  cases hlast : (matching s.entries accountId asset).getLast? with
  | none =>
    have hnil := List.getLast?_eq_none_iff.mp hlast
    have hall : matching s'.entries accountId asset = matching new accountId asset := by
      rw [← hnew, matching_append, hnil, List.nil_append]
    rw [← hall, List.filter_eq_self]
    intro e he
    exact decide_eq_true (Paging.numbered_bounds hbook.numbers (matching_subset _ _ _ he)).1
  | some e =>
    rw [← hnew, matching_append] at hinc ⊢
    exact Paging.filter_after hinc (by rw [hlast]; rfl)

end Deltas

/-- **The two deltas agree**: for every reachable state whose entry ids are distinct and not empty,
    every account and every asset or all of them, and every later state, the matching entries after
    the last entry id of the snapshot are the matching entries above its last sequence number; their
    signed sum and the balance of the snapshot make the balance. -/
theorem deltas_agree (digest : ByteArray → String) (salt : String) (s : LedgerState)
    (hr : Reachable digest salt s) (hids : (s.entries.map (·.entryId)).Nodup)
    (hnamed : ∀ e ∈ s.entries, e.entryId ≠ "") (accountId asset now : String)
    (calls : List Call) :
    let snap := buildSnapshot s accountId asset now
    let s' := runFrom digest salt calls s
    let delta := matching (entriesSince s' snap.lastEntryId) accountId asset
    delta = (matching s'.entries accountId asset).filter
        (fun e => snap.lastSequence < e.sequenceNumber) ∧
      (delta.map (·.signed)).sum + snap.balance = computeBalance s' accountId asset := by
  intro snap s' delta
  obtain ⟨recs, hbook⟩ := reachable_bookkeeping (hr.runFrom calls)
  have hprefix : s.entries <+: s'.entries := runFrom_entries calls s
  obtain ⟨new, hnew⟩ := hprefix
  have hdelta : delta = matching new accountId asset :=
    since_snapshot hids hnamed hnew accountId asset now
  refine ⟨hdelta.trans (above_snapshot hbook hnew accountId asset now).symm, ?_⟩
  rw [hdelta, buildSnapshot_balance, computeBalance_signed, ← hnew, matching_append,
    List.map_append, List.sum_append, add_comm]

/-- The balance of "uc" over all assets after a further posting. Its last entry in the snapshot is
    not the last one of the sample run. -/
theorem deltas_agree_sample :
    let snap := buildSnapshot sampleState "uc" "" "1700000000"
    let s' := runFrom sampleDigest sampleSalt
      [.post { sampleRequest with postingId := "bal2" } sampleSupply] sampleState
    let delta := matching (entriesSince s' snap.lastEntryId) "uc" ""
    delta = (matching s'.entries "uc" "").filter
        (fun e => snap.lastSequence < e.sequenceNumber) ∧
      (delta.map (·.signed)).sum + snap.balance = computeBalance s' "uc" "" :=
  deltas_agree sampleDigest sampleSalt sampleState sampleState_reachable (by decide +kernel)
    (by decide +kernel) "uc" "" "1700000000" _

end LedgerAccounting
