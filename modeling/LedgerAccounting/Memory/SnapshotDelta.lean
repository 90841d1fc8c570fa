/-
  File:      LedgerAccounting/Memory/SnapshotDelta.lean
  Subject:   A balance read from a snapshot and the entries after it is the balance.

  A snapshot is a fold over the entries of the state it was taken in, and those are a prefix of
  the entries of every later state. The sequence numbers are strictly increasing, so the last
  number of the fold separates the matching entries it has seen from those it has not.
-/
import LedgerAccounting.Lib.Paging
import LedgerAccounting.Memory.Integrity

namespace LedgerAccounting

open Runs

/-! ## 1. Snapshots of a prefix of the entries -/

/-- The snapshot is one of the entries `old`, which match it at least once. -/
structure TakenOf (old : List EntryRecord) (snap : BalanceSnapshot) : Prop where
  asset : snap.asset.isEmpty = false
  balance : snap.balance = ((matching old snap.accountId snap.asset).map (·.signed)).sum
  last : (matching old snap.accountId snap.asset).getLast?.map (·.sequenceNumber) =
    some snap.lastSequence

/-- A snapshot built for an entry of the state, in an asset that has a name, is one of the entries
    of the state. -/
theorem buildSnapshot_takenOf {state : LedgerState} {e : EntryRecord} (he : e ∈ state.entries)
    (hasset : e.asset.isEmpty = false) (now : String) :
    TakenOf state.entries (buildSnapshot state e.accountId e.asset now) := by
  have hmem : e ∈ matching state.entries e.accountId e.asset := by
    unfold matching
    simp [he]
  have hlast := List.getLast?_eq_getLast_of_ne_nil (List.ne_nil_of_mem hmem)
  have hsame := buildSnapshot_asset state e.accountId hasset now
  refine ⟨?_, ?_, ?_⟩
  · rw [hsame]
    exact hasset
  · rw [hsame]
    exact buildSnapshot_balance state e.accountId e.asset now
  · rw [hsame, buildSnapshot_lastSequence]
    show (matching state.entries e.accountId e.asset).getLast?.map _ = _
    rw [hlast]
    rfl

/-! ## 2. Snapshots along a run -/

/-- Every snapshot of the state was taken of a prefix of its entries. -/
def SnapshotsTaken (state : LedgerState) : Prop :=
  ∀ snap ∈ state.snapshots, ∃ old, old <+: state.entries ∧ TakenOf old snap

section Along

variable {digest : ByteArray → String} {salt : String}

/-- No asset without a name is booked. -/
theorem booked_asset {s : LedgerState} (hs : Reachable digest salt s) {e : EntryRecord}
    (he : e ∈ s.entries) : e.asset.isEmpty = false := by
  obtain ⟨spec, hspec, _⟩ := (reachable_checked hs e he).asset
  cases hempty : e.asset.isEmpty with
  | false => rfl
  | true =>
    rw [String.isEmpty_iff.mp hempty] at hspec
    have hnone : findAsset "" = none := by decide
    rw [hnone] at hspec
    cases hspec

/-- **Every call keeps the snapshots those of prefixes**: a posting extends the entries, and
    `write_snapshots` takes its snapshots of all of them. -/
theorem snapshotsTaken_apply {s : LedgerState} (hs : Reachable digest salt s)
    (h : SnapshotsTaken s) (c : Call) : SnapshotsTaken (apply digest salt c s).2 := by
  have hkeep : ∀ s' : LedgerState, s'.snapshots = s.snapshots → s.entries <+: s'.entries →
      SnapshotsTaken s' := by
    intro s' hsnaps hentries snap hsnap
    rw [hsnaps] at hsnap
    obtain ⟨old, hold, htaken⟩ := h snap hsnap
    exact ⟨old, hold.trans hentries, htaken⟩
  have ht : Transition digest salt s (apply digest salt c s).2 := apply_transition c s
  have hentries := transition_entries ht
  cases c with
  | createAccount req sup =>
    refine hkeep _ ?_ hentries
    rcases createAccount_cases sup req s with ⟨e, he⟩ | ⟨_, _, _, _, _, hc⟩
    · simp only [apply, he]
    · simp only [apply, hc]
  | post req sup =>
    refine hkeep _ ?_ hentries
    rcases post_cases digest salt sup req s with ⟨e, he⟩ | ⟨_, _, _, _, hp⟩ | ⟨_, ha⟩
    · simp only [apply, he]
    · simp only [apply, hp]
    · simp only [apply, post_accepted digest salt sup ha]
      rfl
  | writeSnapshots sup =>
    intro snap hsnap
    refine ⟨s.entries, List.prefix_rfl, ?_⟩
    have htaken : ∀ snap ∈ snapshotAll sup s, TakenOf s.entries snap := by
      rw [snapshotAll_eq]
      exact Keyed.firsts_forall fun e he n => buildSnapshot_takenOf he (booked_asset hs he) _
    exact htaken snap hsnap

theorem reachable_snapshotsTaken {s : LedgerState} (h : Reachable digest salt s) :
    SnapshotsTaken s := by
  obtain ⟨calls, rfl⟩ := h
  have hboth : ∀ s, Reachable digest salt s ∧ SnapshotsTaken s → ∀ c,
      Reachable digest salt (apply digest salt c s).2 ∧
        SnapshotsTaken (apply digest salt c s).2 :=
    fun s hs c => ⟨hs.1.runFrom [c], snapshotsTaken_apply hs.1 hs.2 c⟩
  exact (run_invariant (fun c s hs => hboth s hs c) calls
    ⟨⟨[], rfl⟩, fun _ hs => absurd hs List.not_mem_nil⟩).2

end Along

/-! ## 3. The entries after a snapshot -/

/-- The sequence numbers of booked entries increase, and so do those of a selection. -/
theorem Bookkeeping.increasing {state : LedgerState} {recs : List PostingRecord}
    (h : Bookkeeping state recs) (accountId asset : String) :
    (matching state.entries accountId asset).Pairwise fun a b =>
      a.sequenceNumber < b.sequenceNumber := by
  have hall := Paging.increasing_of_numbered h.numbers
  exact (hall.filter _).filter _

/-- **What a snapshot holds and what came after it is the balance.** -/
theorem TakenOf.balance_delta {state : LedgerState} {recs : List PostingRecord}
    (h : Bookkeeping state recs) {old : List EntryRecord} {snap : BalanceSnapshot}
    (ht : TakenOf old snap) (hold : old <+: state.entries) :
    snap.balance + ((matching state.entries snap.accountId snap.asset).filter fun e =>
        snap.lastSequence < e.sequenceNumber).foldl (fun acc e => acc + e.signed) 0 =
      computeBalance state snap.accountId snap.asset := by
  obtain ⟨new, hnew⟩ := hold
  have hinc := h.increasing snap.accountId snap.asset
  unfold computeBalance
  rw [← hnew, matching_append] at hinc ⊢
  rw [Paging.filter_after hinc ht.last, foldl_signed, foldl_signed, ht.balance, List.map_append,
    List.sum_append]
  omega

/-! ## 4. Snapshot plus delta -/

/-- **A balance read via its snapshot is the balance**, for every account id and every asset that
    is named, after every run. -/
theorem snapshot_plus_delta (digest : ByteArray → String) (salt : String) (calls : List Call)
    (accountId asset : String) (hasset : asset ≠ "") :
    balanceViaSnapshot (runNew digest salt calls) accountId asset =
      balance (runNew digest salt calls) accountId asset := by
  have hr : Reachable digest salt (runNew digest salt calls) := ⟨calls, rfl⟩
  obtain ⟨recs, hbook⟩ := reachable_bookkeeping hr
  generalize runNew digest salt calls = state at hr hbook
  unfold balanceViaSnapshot balance
  cases hacc : state.accounts.lookup accountId with
  | none => rfl
  | some acc =>
    simp only [Option.isNone_some, Option.isSome_some, Bool.false_eq_true, if_false, if_true]
    cases hsnap : latestSnapshot state accountId asset with
    | none => rfl
    | some snap =>
      -- `rfind` answers a snapshot of this account in this asset
      have hmem := List.mem_of_find?_eq_some hsnap
      have hsel := List.find?_some hsnap
      rw [List.mem_reverse, List.mem_filter] at hmem
      obtain ⟨hin, hid⟩ := hmem
      have hname : asset.isEmpty = false := by
        rw [Bool.eq_false_iff]
        exact fun hempty => hasset (String.isEmpty_iff.mp hempty)
      rw [hname, Bool.false_or] at hsel
      obtain ⟨old, hold, htaken⟩ := reachable_snapshotsTaken hr snap hin
      have hdelta := htaken.balance_delta hbook hold
      rw [eq_of_beq hid, eq_of_beq hsel] at hdelta
      exact congrArg some hdelta

/-- A snapshot, a posting after it, and the balance read through the snapshot. -/
theorem snapshot_plus_delta_sample :
    balanceViaSnapshot (runNew sampleDigest sampleSalt
        (sampleCalls ++ [.writeSnapshots sampleSupply,
          .post { sampleRequest with postingId := "bal2" } sampleSupply])) "uc" "USD" =
      balance (runNew sampleDigest sampleSalt
        (sampleCalls ++ [.writeSnapshots sampleSupply,
          .post { sampleRequest with postingId := "bal2" } sampleSupply])) "uc" "USD" :=
  snapshot_plus_delta sampleDigest sampleSalt _ "uc" "USD" (by decide)

end LedgerAccounting
