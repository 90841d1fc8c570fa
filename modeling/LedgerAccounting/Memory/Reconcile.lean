/-
  File:      LedgerAccounting/Memory/Reconcile.lean
  Subject:   `reconcile_snapshot` on the in-memory store, asked at a later time.

  The check recomputes the snapshot from all entries there are, not from those up to its
  `last_entry_id`, and it asks for the asset of the snapshot, which is the text "all" for a snapshot
  over all assets.

  * `reconcile_decides_iff`: when the check decides whether a snapshot holds the right balance.
-/
import LedgerAccounting.Memory.SnapshotDelta

namespace LedgerAccounting

open Runs

variable {digest : ByteArray → String} {salt : String} {state : LedgerState}

/-! ## 1. What the check compares -/

/-- Reconciling compares the balance and the last entry id computed now with those of the
    snapshot. -/
theorem reconcileSnapshot_iff {snap : BalanceSnapshot} {now : String} :
    reconcileSnapshot state snap now = true ↔
      ((matching state.entries snap.accountId snap.asset).map (·.signed)).sum = snap.balance ∧
        ((matching state.entries snap.accountId snap.asset).getLast?.map (·.entryId)).getD "" =
          snap.lastEntryId := by
  unfold reconcileSnapshot
  rw [Bool.and_eq_true, beq_iff_eq, beq_iff_eq, buildSnapshot_balance, buildSnapshot_lastEntryId]

/-- No entry is booked in an asset called "all". -/
theorem matching_all_text (hr : Reachable digest salt state) (accountId : String) :
    matching state.entries accountId "all" = [] := by
  refine List.filter_eq_nil_iff.mpr fun e he hall => ?_
  obtain ⟨spec, hspec, _⟩ := (reachable_checked hr e (List.mem_of_mem_filter he)).asset
  have hasset : e.asset = "all" := by simpa using hall
  rw [hasset] at hspec
  have hnone : findAsset "all" = none := by decide
  rw [hnone] at hspec
  cases hspec

/-! ## 2. The check at a later time -/

/-- The check decides, on every snapshot of the pair that ends with the same entry, whether it
    holds the balance of `snap`. -/
def DecidesBalance (state : LedgerState) (snap : BalanceSnapshot) : Prop :=
  ∀ (snap' : BalanceSnapshot) (now : String), snap'.accountId = snap.accountId →
    snap'.asset = snap.asset → snap'.lastEntryId = snap.lastEntryId →
    (reconcileSnapshot state snap' now = true ↔ snap'.balance = snap.balance)

/-- The check decides exactly when the snapshot is the one it would compute. -/
theorem decidesBalance_iff {snap : BalanceSnapshot} : DecidesBalance state snap ↔
    ((matching state.entries snap.accountId snap.asset).map (·.signed)).sum = snap.balance ∧
      ((matching state.entries snap.accountId snap.asset).getLast?.map (·.entryId)).getD "" =
        snap.lastEntryId := by
  constructor
  · intro h
    exact reconcileSnapshot_iff.mp ((h snap "" rfl rfl rfl).mpr rfl)
  · rintro ⟨hbalance, hlast⟩ snap' now hacc hasset hid
    rw [reconcileSnapshot_iff, hacc, hasset, hid, hbalance]
    exact ⟨fun h => h.1.symm, fun h => ⟨h.symm, hlast⟩⟩

/-- With distinct ids the last entry of `old` followed by `new` is none of `old`, when `new` is not
    empty. -/
theorem last_append_ne {old new : List EntryRecord} {e : EntryRecord}
    (hids : ((old ++ new).map (·.entryId)).Nodup) (he : e ∈ old) (hnew : new ≠ []) :
    ((old ++ new).getLast?.map (·.entryId)).getD "" ≠ e.entryId := by
  have hlast := List.getLast?_eq_getLast_of_ne_nil hnew
  rw [List.getLast?_append, hlast, Option.some_or, Option.map_some, Option.getD_some]
  rw [List.map_append, List.nodup_append] at hids
  exact (hids.2.2 _ (List.mem_map_of_mem he) _
    (List.mem_map_of_mem (List.getLast_mem hnew))).symm

/-- **When the check is right**: at any later time it decides whether a snapshot of the pair holds
    the balance of its entries up to the last entry id exactly when the snapshot is in one asset
    and no entry of the pair has been booked since. The ids are UUIDs: none is empty, none is
    drawn twice. -/
theorem reconcile_decides_iff (digest : ByteArray → String) (salt : String) (s : LedgerState)
    (hr : Reachable digest salt s) (accountId asset now : String)
    (hsome : matching s.entries accountId asset ≠ []) (calls : List Call)
    (hids : ((runFrom digest salt calls s).entries.map (·.entryId)).Nodup)
    (hnamed : ∀ e ∈ (runFrom digest salt calls s).entries, e.entryId ≠ "") :
    let s' := runFrom digest salt calls s
    DecidesBalance s' (buildSnapshot s accountId asset now) ↔
      asset ≠ "" ∧ matching (s'.entries.drop s.entries.length) accountId asset = [] := by
  intro s'
  have hprefix : s.entries <+: s'.entries := runFrom_entries calls s
  obtain ⟨new, hnew⟩ := hprefix
  have hdrop : s'.entries.drop s.entries.length = new := by
    rw [← hnew, List.drop_left]
  obtain ⟨e, he⟩ : ∃ e, (matching s.entries accountId asset).getLast? = some e :=
    ⟨_, List.getLast?_eq_getLast_of_ne_nil hsome⟩
  have hmem : e ∈ matching s.entries accountId asset := List.mem_of_getLast? he
  have hlast : (buildSnapshot s accountId asset now).lastEntryId = e.entryId := by
    rw [buildSnapshot_lastEntryId, he]
    rfl
  have hacc : (buildSnapshot s accountId asset now).accountId = accountId := rfl
  rw [decidesBalance_iff, hdrop, hlast, hacc, buildSnapshot_balance]
  by_cases hasset : asset = ""
  · -- the check looks for entries in the asset "all"
    subst hasset
    have hall : (buildSnapshot s accountId "" now).asset = "all" := rfl
    rw [hall, matching_all_text (hr.runFrom calls)]
    refine iff_of_false (fun h => ?_) fun h => h.1 rfl
    have hein : e ∈ s'.entries := hnew ▸ List.mem_append_left _ (matching_subset _ _ _ hmem)
    exact hnamed e hein h.2.symm
  · have hsame : (buildSnapshot s accountId asset now).asset = asset :=
      buildSnapshot_asset s accountId (by simpa using hasset) now
    rw [hsame, ← hnew, matching_append]
    constructor
    · rintro ⟨_, hid⟩
      refine ⟨hasset, ?_⟩
      by_contra hmore
      refine last_append_ne ?_ hmem hmore hid
      rw [← matching_append]
      exact (hnew ▸ hids).sublist ((matching_sublist_all _ _ _).map _)
    · rintro ⟨_, hnone⟩
      rw [hnone, List.append_nil, he]
      exact ⟨rfl, rfl⟩

/-- After the snapshots of the sample run are written, the check is right for "uc" in "USD". -/
theorem reconcile_decides_iff_sample :
    let s' := runFrom sampleDigest sampleSalt [.writeSnapshots sampleSupply] sampleState
    DecidesBalance s' (buildSnapshot sampleState "uc" "USD" "1700000000") ↔
      "USD" ≠ "" ∧ matching (s'.entries.drop sampleState.entries.length) "uc" "USD" = [] :=
  reconcile_decides_iff sampleDigest sampleSalt sampleState sampleState_reachable "uc" "USD"
    "1700000000" (by decide +kernel) [.writeSnapshots sampleSupply] (by decide +kernel)
    (by decide +kernel)

/-- A second posting between the two accounts, with identifiers of its own. -/
def laterPosting : Call :=
  .post { sampleRequest with postingId := "bal2" }
    { sampleSupply with
      uuid := fun k => ["018bcfe5-6801-7000-8000-000000000004",
        "018bcfe5-6801-7000-8000-000000000005",
        "018bcfe5-6801-7000-8000-000000000006"].getD k "" }

/-- **One posting later the check rejects a right snapshot**, and a snapshot over all assets it
    rejects at once. -/
theorem reconcile_rejects_later :
    (¬ ∀ (digest : ByteArray → String) (salt : String) (s : LedgerState)
      (accountId asset now : String) (calls : List Call), Reachable digest salt s →
      matching s.entries accountId asset ≠ [] →
      ((runFrom digest salt calls s).entries.map (·.entryId)).Nodup →
      (∀ e ∈ (runFrom digest salt calls s).entries, e.entryId ≠ "") →
      DecidesBalance (runFrom digest salt calls s) (buildSnapshot s accountId asset now)) ∧
    reconcileSnapshot sampleState (buildSnapshot sampleState "uc" "" "1700000000") "1700000000" =
      false := by
  refine ⟨fun h => ?_, by decide +kernel⟩
  have hright := (h sampleDigest sampleSalt sampleState "uc" "USD" "1700000000" [laterPosting]
    sampleState_reachable (by decide +kernel) (by decide +kernel) (by decide +kernel)
    (buildSnapshot sampleState "uc" "USD" "1700000000") "1700000060" rfl rfl rfl).mpr rfl
  exact absurd hright (by decide +kernel)

end LedgerAccounting
