/-
  File:      LedgerAccounting/Pool/Reconcile.lean
  Subject:   `Store::reconcile_snapshot` with a pool, after calls of `create_account`, `post` and
             `write_snapshots` made one after another.

  The check compares the balance of the snapshot with two balances computed now, from all entries
  and through the latest snapshot. Unlike the in-memory check it never looks at the last entry id.

  * `pool_reconcile_iff`: which snapshots pass, and how long one that was written passes.
-/
import LedgerAccounting.Pool.SnapshotBalance

namespace LedgerAccounting

open Keyed

/-! ## 1. The check -/

/-- `Store::reconcile_snapshot` with a pool, on the two balances it reads. -/
def reconcileSnapshotDb (computed viaSnapshot : Option Int) (snap : BalanceSnapshot) : Bool :=
  computed.isSome && computed == viaSnapshot && computed == some snap.balance

/-- The check on the database, when `row` is the latest snapshot; no query fails but the cast. -/
def Database.reconcile (d : Database) (snap : BalanceSnapshot) (row : Option SnapshotRow) : Bool :=
  reconcileSnapshotDb (balanceFromDb (.ok (sumSigned d.tables.entries snap.accountId snap.asset)))
    (d.viaSnapshot snap.accountId snap.asset row) snap

section Reconcile

variable {d : Database} {snap : BalanceSnapshot} {row : Option SnapshotRow}

/-- The snapshot has to hold the balance, and the balance to be read through the latest one. -/
theorem reconcile_true_iff : d.reconcile snap row = true ↔
    snap.balance = sumSigned d.tables.entries snap.accountId snap.asset ∧
      d.viaSnapshot snap.accountId snap.asset row =
        some (sumSigned d.tables.entries snap.accountId snap.asset) := by
  unfold Database.reconcile reconcileSnapshotDb balanceFromDb
  simp only [Option.isSome_some, Bool.true_and, Bool.and_eq_true, beq_iff_eq, Option.some.injEq]
  exact ⟨fun h => ⟨h.2.symm, h.1.symm⟩, fun h => ⟨h.2.symm, h.1.symm⟩⟩

/-- Nothing is read through a snapshot of an account that does not exist. -/
theorem viaSnapshot_unknown {accountId asset : String} (h : ¬ d.tables.HasAccount accountId) :
    d.viaSnapshot accountId asset row = none := by
  have hnone : rowAt AccountRow.accountId d.tables.accounts accountId = none :=
    rowAt_eq_none.mpr fun r hr hid => h ⟨r, hr, hid⟩
  unfold Database.viaSnapshot Database.found balanceViaSnapshotDb
  rw [hnone]
  rfl

/-- Whether the balance is read through the latest snapshot. -/
theorem viaSnapshot_eq_iff (h : d.Sound) {accountId asset : String} (hasset : asset ≠ "")
    (hrow : IsLatest d.snapshots accountId asset row) :
    d.viaSnapshot accountId asset row = some (sumSigned d.tables.entries accountId asset) ↔
      d.tables.HasAccount accountId ∧
        ∀ r ∈ row, IsBigint (sumSigned d.tables.entries accountId asset - r.balance) := by
  by_cases haccount : d.tables.HasAccount accountId
  · rw [and_iff_right haccount]
    cases row with
    | none =>
      refine iff_of_true ?_ fun r hr => by cases hr
      unfold Database.viaSnapshot
      rw [found_known haccount]
      rfl
    | some r =>
      rw [viaSnapshot_row h haccount hasset hrow.1 hrow.2.1]
      simp only [Option.mem_def, Option.some.injEq, forall_eq']
      by_cases hfits : IsBigint (sumSigned d.tables.entries accountId asset - r.balance)
      · simp only [hfits, if_true]
      · simp only [hfits, if_false, reduceCtorEq]
  · rw [viaSnapshot_unknown haccount]
    exact iff_of_false (by simp) fun h => haccount h.1

end Reconcile

/-! ## 2. Which snapshots pass -/

/-- **Which snapshots pass**, in every database that calls of `create_account`, `post` and
    `write_snapshots` leave, for an asset with a name: those of an account there is that hold the
    balance of now, whatever last entry they name, if that balance differs from the one of the
    latest snapshot by a number in the range of a `bigint`. A snapshot that was written names an
    entry of the ledger, and passes exactly as long as what is booked after that entry sums to
    zero. -/
theorem pool_reconcile_iff (digest : ByteArray → String) (salt : String) (d : Database)
    (h : Reached digest salt d) (snap : BalanceSnapshot) (hasset : snap.asset ≠ "")
    (row : Option SnapshotRow) (hrow : IsLatest d.snapshots snap.accountId snap.asset row) :
    (d.reconcile snap row = true ↔ d.tables.HasAccount snap.accountId ∧
      snap.balance = sumSigned d.tables.entries snap.accountId snap.asset ∧
      ∀ r ∈ row, IsBigint (snap.balance - r.balance)) ∧
    ∀ r ∈ d.snapshots, r.accountId = snap.accountId → r.asset = snap.asset →
      r.balance = snap.balance → ∃ e ∈ d.tables.entries, e.entryId = r.lastEntryId ∧
        (d.reconcile snap row = true ↔ d.tables.HasAccount snap.accountId ∧
          sumAfter d.tables.entries snap.accountId snap.asset e.sequenceNumber = 0 ∧
          ∀ r ∈ row, IsBigint (snap.balance - r.balance)) := by
  have hsound := reached_sound h
  have hpasses : d.reconcile snap row = true ↔ d.tables.HasAccount snap.accountId ∧
      snap.balance = sumSigned d.tables.entries snap.accountId snap.asset ∧
      ∀ r ∈ row, IsBigint (snap.balance - r.balance) := by
    rw [reconcile_true_iff, viaSnapshot_eq_iff hsound hasset hrow]
    constructor
    · rintro ⟨hbalance, haccount, hfits⟩
      exact ⟨haccount, hbalance, hbalance ▸ hfits⟩
    · rintro ⟨haccount, hbalance, hfits⟩
      exact ⟨hbalance, haccount, hbalance ▸ hfits⟩
  refine ⟨hpasses, fun r hr haccountId hnamed hbalance => ?_⟩
  obtain ⟨e, he, hid, hright⟩ := hsound.right r hr
  refine ⟨e, he, hid, hpasses.trans ?_⟩
  -- the entries up to the one the row names make its balance, those after it the rest
  rw [haccountId, hnamed, hbalance] at hright
  have hsplit := sumUpTo_sumAfter d.tables.entries snap.accountId e.sequenceNumber hasset
  have hmoved : snap.balance = sumSigned d.tables.entries snap.accountId snap.asset ↔
      sumAfter d.tables.entries snap.accountId snap.asset e.sequenceNumber = 0 := by
    constructor
    · intro hsame
      omega
    · intro hzero
      omega
  rw [hmoved]

/-- A snapshot that names no entry passes, since it holds the balance. -/
theorem pool_reconcile_iff_sample :
    snapshotDatabase.reconcile ⟨"uc", "USD", maxAmount, "", "", 0⟩
      (latestOf snapshotDatabase.snapshots "uc" "USD") = true := by
  refine (pool_reconcile_iff plainDigest sampleSalt snapshotDatabase snapshotDatabase_reached
    ⟨"uc", "USD", maxAmount, "", "", 0⟩ (by decide) _ (latestOf_isLatest _ _ _)).1.mpr
    ⟨snapshotDatabase_piled.hasAccount, ?_, fun r hr => ?_⟩
  · rw [snapshotDatabase_piled.sum]
    rfl
  · have hlatest := latestOf_isLatest snapshotDatabase.snapshots "uc" "USD"
    rw [Option.mem_def.mp hr] at hlatest
    rw [snapshotDatabase_row.2 r hlatest.1 hlatest.2.1]
    decide

end LedgerAccounting
