/-
  File:      LedgerAccounting/Memory/SnapshotAll.lean
  Subject:   What `snapshot_all` returns for the in-memory store: one snapshot for every pair of an
             account and an asset that has entries.

  The loop skips the pairs it has seen. A snapshot keeps the number of the last entry of its fold,
  which is the largest one because the numbers increase; and the snapshots of one asset are those
  of all the accounts booked in it, so their balances sum to zero.

  * `snapshot_all_complete`: the snapshots of every reachable state.
-/
import LedgerAccounting.Memory.SnapshotDelta
import LedgerAccounting.Memory.TrialBalance

namespace LedgerAccounting

open Runs

variable {digest : ByteArray → String} {salt : String} {state : LedgerState}

/-! ## 1. The loop -/

/-- The pair a snapshot is of. -/
def BalanceSnapshot.pair (snap : BalanceSnapshot) : String × String :=
  (snap.accountId, snap.asset)

variable (state) in
theorem buildSnapshot_pair {e : EntryRecord} (hasset : e.asset.isEmpty = false) (now : String) :
    (buildSnapshot state e.accountId e.asset now).pair = e.pair := by
  unfold BalanceSnapshot.pair EntryRecord.pair
  rw [buildSnapshot_asset state e.accountId hasset]
  rfl

/-- **The snapshots show every booked pair, and none twice.** -/
theorem snapshotAll_pairs (hr : Reachable digest salt state) (sup : Supply) :
    ((snapshotAll sup state).map BalanceSnapshot.pair).Nodup ∧
      ∀ pair, pair ∈ (snapshotAll sup state).map BalanceSnapshot.pair ↔
        pair ∈ state.entries.map EntryRecord.pair := by
  rw [snapshotAll_eq]
  exact Keyed.firsts_keys fun e he _ => buildSnapshot_pair state (booked_asset hr he) _

/-- Every snapshot was built for a booked entry. -/
theorem snapshotAll_built (hr : Reachable digest salt state) (sup : Supply) :
    ∀ snap ∈ snapshotAll sup state, ∃ now, (∃ e ∈ state.entries, e.pair = snap.pair) ∧
      snap = buildSnapshot state snap.accountId snap.asset now := by
  rw [snapshotAll_eq]
  refine Keyed.firsts_forall fun e he n => ?_
  have hpair := buildSnapshot_pair state (booked_asset hr he) (sup.nowIso n)
  refine ⟨sup.nowIso n, ⟨e, he, hpair.symm⟩, ?_⟩
  obtain ⟨hacc, hasset⟩ := Prod.mk.inj hpair
  rw [hacc, hasset]

/-! ## 2. The last entry of a pair -/

/-- The entry is the last one of its pair, and the one with the largest sequence number. -/
structure LastOf (entries : List EntryRecord) (accountId asset : String) (e : EntryRecord) :
    Prop where
  last : (entries.filter fun e => e.accountId == accountId && e.asset == asset).getLast? = some e
  largest : ∀ e' ∈ entries, e'.accountId = accountId → e'.asset = asset →
    e'.sequenceNumber ≤ e.sequenceNumber

/-- The last element of a list with increasing keys has the largest key. -/
theorem increasing_getLast {l : List EntryRecord} {e : EntryRecord}
    (hinc : l.Pairwise fun a b => a.sequenceNumber < b.sequenceNumber)
    (hlast : l.getLast? = some e) : ∀ e' ∈ l, e'.sequenceNumber ≤ e.sequenceNumber := by
  obtain ⟨front, rfl⟩ := List.getLast?_eq_some_iff.mp hlast
  rw [List.pairwise_append] at hinc
  intro e' he'
  rcases List.mem_append.mp he' with hfront | hsame
  · exact (hinc.2.2 e' hfront e List.mem_cons_self).le
  · rw [List.mem_singleton.mp hsame]

/-- A snapshot of a booked pair ends with the last entry of the pair. -/
theorem buildSnapshot_last {recs : List PostingRecord} (hbook : Bookkeeping state recs)
    {e : EntryRecord} (he : e ∈ state.entries) (hasset : e.asset.isEmpty = false) (now : String) :
    ∃ last, LastOf state.entries e.accountId e.asset last ∧
      (buildSnapshot state e.accountId e.asset now).lastEntryId = last.entryId ∧
      (buildSnapshot state e.accountId e.asset now).lastSequence = last.sequenceNumber := by
  have hmatch := matching_named state.entries e.accountId hasset
  have hmem : e ∈ matching state.entries e.accountId e.asset := by
    rw [hmatch]
    exact List.mem_filter.mpr ⟨he, by simp⟩
  obtain ⟨last, hlast⟩ : ∃ last,
      (matching state.entries e.accountId e.asset).getLast? = some last :=
    ⟨_, List.getLast?_eq_getLast_of_ne_nil (List.ne_nil_of_mem hmem)⟩
  refine ⟨last, ⟨?_, fun e' he' hacc has => ?_⟩, ?_, ?_⟩
  · rw [← hmatch]
    exact hlast
  · refine increasing_getLast (hbook.increasing e.accountId e.asset) hlast e' ?_
    rw [hmatch]
    exact List.mem_filter.mpr ⟨he', by simp [hacc, has]⟩
  · rw [buildSnapshot_lastEntryId, hlast]
    rfl
  · rw [buildSnapshot_lastSequence, hlast]
    rfl

/-! ## 3. The balances of one asset -/

/-- The balances of the accounts in a list that has every one booked in an asset, and none twice,
    sum to zero. -/
theorem asset_balances_sum (hr : Reachable digest salt state) {accountIds : List String}
    (hnodup : accountIds.Nodup) {asset : String} (hname : asset.isEmpty = false)
    (hall : ∀ e ∈ state.entries, e.asset = asset → e.accountId ∈ accountIds) :
    (accountIds.map fun a => computeBalance state a asset).sum = 0 := by
  obtain ⟨journal, hbooks⟩ := reachable_books hr
  have hsum := hbooks.balanced.sum_balance accountIds.toFinset (selects asset) fun l hl hsel => by
    obtain ⟨e, he, rfl⟩ := List.mem_map.mp hl
    rw [selects, hname, Bool.false_or] at hsel
    exact List.mem_toFinset.mpr (hall e he (eq_of_beq hsel))
  rw [List.sum_toFinset _ hnodup] at hsum
  rw [← hsum]
  exact congrArg List.sum (List.map_congr_left fun a _ => computeBalance_eq _ _ _)

/-- The snapshots of an asset are of different accounts, and of all that are booked in it. -/
theorem snapshots_of_asset (hr : Reachable digest salt state) (sup : Supply) (asset : String) :
    let snaps := (snapshotAll sup state).filter fun s => s.asset == asset
    (snaps.map (·.accountId)).Nodup ∧
      ∀ e ∈ state.entries, e.asset = asset → e.accountId ∈ snaps.map (·.accountId) := by
  intro snaps
  obtain ⟨hnodup, hpairs⟩ := snapshotAll_pairs hr sup
  have hsame : snaps.map BalanceSnapshot.pair = (snaps.map (·.accountId)).map (·, asset) := by
    rw [List.map_map]
    refine List.map_congr_left fun s hs => ?_
    have hasset : s.asset = asset := eq_of_beq (List.mem_filter.mp hs).2
    exact congrArg (Prod.mk s.accountId) hasset
  refine ⟨?_, fun e he hasset => ?_⟩
  · have hsub : (snaps.map BalanceSnapshot.pair).Nodup :=
      hnodup.sublist (List.filter_sublist.map _)
    rw [hsame] at hsub
    exact List.Nodup.of_map _ hsub
  · obtain ⟨s, hs, hpair⟩ := List.mem_map.mp ((hpairs e.pair).mpr (List.mem_map_of_mem he))
    obtain ⟨hacc, has⟩ := Prod.mk.inj hpair
    refine List.mem_map.mpr ⟨s, List.mem_filter.mpr ⟨hs, ?_⟩, hacc⟩
    rw [has, hasset]
    exact beq_self_eq_true asset

/-! ## 4. The snapshots of a reachable state -/

/-- **`snapshot_all` is complete and makes nothing twice**, after every run: one snapshot for every
    pair of an account and an asset that has entries and none for another; each holds the balance of
    its pair and ends with the last entry of the pair, which has the largest sequence number; and
    the balances of the snapshots of every asset sum to zero. -/
theorem snapshot_all_complete (digest : ByteArray → String) (salt : String) (calls : List Call)
    (sup : Supply) :
    let state := runNew digest salt calls
    let snaps := snapshotAll sup state
    (∀ accountId asset, snaps.countP (fun s => s.accountId == accountId && s.asset == asset) =
      if ∃ e ∈ state.entries, e.accountId = accountId ∧ e.asset = asset then 1 else 0) ∧
    (∀ snap ∈ snaps, snap.balance = computeBalance state snap.accountId snap.asset ∧
      ∃ last, LastOf state.entries snap.accountId snap.asset last ∧
        snap.lastEntryId = last.entryId ∧ snap.lastSequence = last.sequenceNumber) ∧
    ∀ asset, ((snaps.filter fun s => s.asset == asset).map (·.balance)).sum = 0 := by
  intro state snaps
  have hr : Reachable digest salt state := ⟨calls, rfl⟩
  obtain ⟨recs, hbook⟩ := reachable_bookkeeping hr
  have hheld : ∀ snap ∈ snaps, snap.balance = computeBalance state snap.accountId snap.asset := by
    intro snap hsnap
    obtain ⟨now, _, hbuilt⟩ := snapshotAll_built hr sup snap hsnap
    exact (congrArg (·.balance) hbuilt).trans (buildSnapshot_computed _ _ _ _)
  refine ⟨fun accountId asset => ?_, fun snap hsnap => ⟨hheld snap hsnap, ?_⟩, fun asset => ?_⟩
  · obtain ⟨hnodup, hpairs⟩ := snapshotAll_pairs hr sup
    have hcount : snaps.countP (fun s => s.accountId == accountId && s.asset == asset) =
        (snaps.map BalanceSnapshot.pair).count (accountId, asset) := by
      rw [List.count, List.countP_map]
      rfl
    have hbooked : (accountId, asset) ∈ state.entries.map EntryRecord.pair ↔
        ∃ e ∈ state.entries, e.accountId = accountId ∧ e.asset = asset := by
      simp only [List.mem_map, EntryRecord.pair, Prod.mk.injEq]
    rw [hcount, hnodup.count]
    exact if_congr ((hpairs _).trans hbooked) rfl rfl
  · obtain ⟨now, ⟨e, he, hpair⟩, hbuilt⟩ := snapshotAll_built hr sup snap hsnap
    obtain ⟨hacc, hasset⟩ := Prod.mk.inj hpair
    obtain ⟨last, hlast, hid, hseq⟩ := buildSnapshot_last hbook he (booked_asset hr he) now
    rw [hacc, hasset] at hlast hid hseq
    rw [← hbuilt] at hid hseq
    exact ⟨last, hlast, hid, hseq⟩
  · cases hname : asset.isEmpty with
    | true =>
      -- no snapshot is in an asset without a name
      have hnone : (snaps.filter fun s => s.asset == asset) = [] := by
        refine List.filter_eq_nil_iff.mpr fun s hs has => ?_
        obtain ⟨_, ⟨e, he, hpair⟩, _⟩ := snapshotAll_built hr sup s hs
        have hbooked := booked_asset hr he
        rw [(Prod.mk.inj hpair).2, eq_of_beq has, hname] at hbooked
        cases hbooked
      rw [hnone]
      rfl
    | false =>
      obtain ⟨hnodup, hall⟩ := snapshots_of_asset hr sup asset
      rw [← asset_balances_sum hr hnodup hname hall, List.map_map]
      refine congrArg List.sum (List.map_congr_left fun s hs => ?_)
      obtain ⟨hs, has⟩ := List.mem_filter.mp hs
      rw [hheld s hs, eq_of_beq has]
      rfl

end LedgerAccounting
