/-
  File:      LedgerAccounting/Pool/SnapshotFailures.lean
  Subject:   `write_snapshots` with a pool, alone, with any of its queries failing.

  A balance that could not be read counts as 0 and a last entry that could not be read as none, and
  the snapshot is taken all the same, returned and written.

  * `snapshotLoop_ran`: one snapshot for each pair, with what its two reads answered.
  * `snapshots_right_iff`: the snapshots are right exactly when no read of a listed pair failed.
-/
import LedgerAccounting.Lib.Alone
import LedgerAccounting.Lib.Runs
import LedgerAccounting.Pool.Summaries
import LedgerAccounting.Run

namespace LedgerAccounting

open Script

/-! ## 1. What a call returns and writes -/

/-- A read of the pair fails. -/
def ReadFails (fails : SummaryStmt → Prop) (accountId asset : String) : Prop :=
  fails (.selectSum accountId asset) ∨ fails (.selectLast accountId asset)

instance (fails : SummaryStmt → Prop) [DecidablePred fails] (accountId asset : String) :
    Decidable (ReadFails fails accountId asset) :=
  inferInstanceAs (Decidable (fails (.selectSum accountId asset) ∨
    fails (.selectLast accountId asset)))

section Alone

variable (fails : SummaryStmt → Prop) (t : Tables)

/-- The snapshot of the pair: its balance and its last entry, as far as they could be read. -/
structure Taken (p : String × String) (snap : BalanceSnapshot) : Prop where
  account : snap.accountId = p.1
  asset : snap.asset = p.2
  balance : ¬ fails (.selectSum p.1 p.2) → snap.balance = sumSigned t.entries p.1 p.2
  last : ¬ fails (.selectLast p.1 p.2) → ∃ found, IsLastEntry t.entries p.1 p.2 found ∧
    snap.lastEntryId = (found.getD ("", 0)).1

variable {fails t}

theorem balance_read {accountId asset : String} {r : Except String Int}
    (h : AnswersUnless (fails (.selectSum accountId asset))
      (· = sumSigned t.entries accountId asset) r)
    (hf : ¬ fails (.selectSum accountId asset)) :
    (balanceFromDb r).getD 0 = sumSigned t.entries accountId asset := by
  obtain ⟨sum, rfl, hsum⟩ := h.ok hf
  exact hsum

theorem last_read {accountId asset : String} {r : Except String (Option (String × Nat))}
    (h : AnswersUnless (fails (.selectLast accountId asset))
      (IsLastEntry t.entries accountId asset) r)
    (hf : ¬ fails (.selectLast accountId asset)) :
    ∃ found, IsLastEntry t.entries accountId asset found ∧
      (foundLast r).1 = (found.getD ("", 0)).1 := by
  obtain ⟨found, rfl, hfound⟩ := h.ok hf
  refine ⟨found, hfound, ?_⟩
  cases found <;> rfl

theorem mem_insert_written {s : Summaries} {row : SnapshotRow} {w : Written}
    (h : w ∈ (s.insert row).written) : w ∈ s.written ∨ w.row = row := by
  unfold Summaries.insert at h
  split at h
  · exact Or.inl h
  · rcases List.mem_append.mp h with h | h
    · exact Or.inl h
    · rw [List.mem_singleton.mp h]
      exact Or.inr rfl

/-- **One snapshot for each pair**, returned in the order of the pairs; a row that is written is
    that of one of them. -/
theorem snapshotLoop_ran {sup : Supply} {pairs : List (String × String)}
    {snaps r : List BalanceSnapshot} {s s' : Summaries}
    (h : Ran (SummaryExec fails t 0) (snapshotLoop sup snaps pairs) s r s') :
    ∃ more, r = snaps ++ more ∧ List.Forall₂ (Taken fails t) pairs more ∧
      ∀ w ∈ s'.written, w ∈ s.written ∨ ∃ snap ∈ more, w.row = snap.row := by
  induction pairs generalizing snaps s with
  | nil =>
    obtain ⟨rfl, rfl⟩ := ran_ret_iff.mp h
    exact ⟨[], (List.append_nil _).symm, .nil, fun w hw => Or.inl hw⟩
  | cons p pairs ih =>
    obtain ⟨accountId, asset⟩ := p
    obtain ⟨sum, s₁, hexec, h⟩ := ran_bind_iff.mp h
    obtain ⟨rfl, hsum⟩ := ran_perform_iff.mp hexec
    obtain ⟨last, s₂, hexec, h⟩ := ran_bind_iff.mp h
    obtain ⟨rfl, hlast⟩ := ran_perform_iff.mp hexec
    obtain ⟨inserted, s₃, hexec, h⟩ := ran_bind_iff.mp h
    obtain ⟨_, hs₃⟩ := ran_perform_iff.mp hexec
    obtain ⟨more, rfl, htaken, hwritten⟩ := ih h
    refine ⟨_ :: more, List.append_assoc .., .cons ?_ htaken, fun w hw => ?_⟩
    · exact ⟨rfl, rfl, balance_read hsum, last_read hlast⟩
    · rcases hwritten w hw with hw | ⟨snap, hsnap, hrow⟩
      · rcases hs₃ with rfl | ⟨_, rfl⟩
        · rcases mem_insert_written hw with hw | hrow
          · exact Or.inl hw
          · exact Or.inr ⟨_, List.mem_cons_self, hrow⟩
        · exact Or.inl hw
      · exact Or.inr ⟨snap, List.mem_cons_of_mem _ hsnap, hrow⟩

/-- What a whole call returns and writes. -/
theorem writeSnapshots_ran {sup : Supply} {table : List SnapshotRow} {cache : List BalanceSnapshot}
    {snaps : List BalanceSnapshot} {s' : Summaries}
    (h : Ran (SummaryExec fails t 0) (writeSnapshotsPool sup) (.start table cache) snaps s') :
    (fails .selectPairs ∧ snaps = [] ∧ s'.written = []) ∨
      ∃ pairs, ¬ fails .selectPairs ∧ IsPairs t.entries pairs ∧
        List.Forall₂ (Taken fails t) pairs snaps ∧
        ∀ w ∈ s'.written, ∃ snap ∈ snaps, w.row = snap.row := by
  obtain ⟨listed, s₁, hexec, h⟩ := ran_bind_iff.mp h
  obtain ⟨rfl, hlisted⟩ := ran_perform_iff.mp hexec
  cases listed with
  | error e =>
    obtain ⟨rfl, rfl⟩ := ran_ret_iff.mp h
    exact Or.inl ⟨hlisted, rfl, rfl⟩
  | ok pairs =>
    obtain ⟨taken, s₂, hloop, h⟩ := ran_bind_iff.mp h
    obtain ⟨more, hmore, htaken, hwritten⟩ := snapshotLoop_ran hloop
    obtain ⟨_, s₃, hcache, h⟩ := ran_bind_iff.mp h
    have hs₃ : s₃ = { s₂ with cache := taken } := ran_perform_iff.mp hcache
    obtain ⟨rfl, rfl⟩ := ran_ret_iff.mp h
    rw [List.nil_append] at hmore
    subst hmore hs₃
    refine Or.inr ⟨pairs, hlisted.1, hlisted.2, htaken, fun w hw => ?_⟩
    exact (hwritten w hw).resolve_left List.not_mem_nil

/-! ## 2. When the snapshots are right -/

/-- A snapshot whose reads did not fail is right. -/
theorem Taken.right {p : String × String} {snap : BalanceSnapshot} (h : Taken fails t p snap)
    (hreads : ¬ ReadFails fails p.1 p.2) (hbooked : ∃ e ∈ t.entries, (e.accountId, e.asset) = p)
    (hasset : p.2 ≠ "") : RowRight t.entries snap.row := by
  obtain ⟨hsum, hlast⟩ := not_or.mp hreads
  obtain ⟨found, hfound, hid⟩ := h.last hlast
  obtain ⟨e, he, rfl, hmax⟩ := isLastEntry_booked hfound hbooked
  refine ⟨e, (mem_ofPair.mp he).1, hid.symm, ?_⟩
  have hbalance : snap.balance = sumUpTo t.entries p.1 p.2 e.sequenceNumber := by
    rw [h.balance hsum, sumUpTo_all hmax hasset]
  rw [← h.account, ← h.asset] at hbalance
  exact hbalance

/-- The snapshots returned and the rows written are right, and none of them is of a pair with a
    failed read. -/
def SnapshotsRight (fails : SummaryStmt → Prop) (t : Tables) (snaps : List BalanceSnapshot)
    (s : Summaries) : Prop :=
  (∀ snap ∈ snaps, RowRight t.entries snap.row ∧ ¬ ReadFails fails snap.accountId snap.asset) ∧
    ∀ w ∈ s.written, RowRight t.entries w.row ∧ ¬ ReadFails fails w.row.accountId w.row.asset

/-- **What failing queries do to the snapshots**, for all tables, all sets of failing queries and
    every call: the snapshots are right and those of pairs with a failed read left out, if and only
    if the list of pairs could not be read or both reads of every listed pair could. A failed
    insert does no harm, applied or not. -/
theorem snapshots_right_iff (fails : SummaryStmt → Prop) (t : Tables)
    (hnamed : ∀ e ∈ t.entries, e.asset ≠ "") (sup : Supply) (table : List SnapshotRow)
    (cache snaps : List BalanceSnapshot) (s : Summaries)
    (hrun : Ran (SummaryExec fails t 0) (writeSnapshotsPool sup) (.start table cache) snaps s) :
    SnapshotsRight fails t snaps s ↔
      fails .selectPairs ∨ ∀ e ∈ t.entries, ¬ ReadFails fails e.accountId e.asset := by
  rcases writeSnapshots_ran hrun with ⟨hlist, rfl, hwritten⟩ | ⟨pairs, hlist, hpairs, htaken, hrows⟩
  · refine iff_of_true ⟨fun snap hsnap => absurd hsnap List.not_mem_nil, fun w hw => ?_⟩
      (Or.inl hlist)
    rw [hwritten] at hw
    cases hw
  · rw [or_iff_right hlist]
    constructor
    · intro hright e he hfail
      -- the snapshot of the pair is among those returned
      obtain ⟨snap, hsnap, hpair⟩ :=
        Runs.forall₂_mem_left htaken ((hpairs.2 (e.accountId, e.asset)).mpr ⟨e, he, rfl⟩)
      refine (hright.1 snap hsnap).2 ?_
      rw [hpair.account, hpair.asset]
      exact hfail
    · intro hreads
      have hsnap : ∀ snap ∈ snaps,
          RowRight t.entries snap.row ∧ ¬ ReadFails fails snap.accountId snap.asset := by
        intro snap hsnap
        obtain ⟨p, hp, hpair⟩ := Runs.forall₂_mem_right htaken hsnap
        obtain ⟨e, he, rfl⟩ := (hpairs.2 p).mp hp
        refine ⟨hpair.right (hreads e he) ⟨e, he, rfl⟩ (hnamed e he), ?_⟩
        rw [hpair.account, hpair.asset]
        exact hreads e he
      refine ⟨hsnap, fun w hw => ?_⟩
      obtain ⟨snap, hmem, hrow⟩ := hrows w hw
      rw [hrow]
      exact hsnap snap hmem

end Alone

/-! One posting of 100 USD, and a call whose first balance cannot be read. -/

def bookedTables : Tables where
  accounts :=
    [ ⟨"uc", "user_custodial", "BOTH", "user_custodial-uc", none, "ACTIVE", 0⟩,
      ⟨"op", "operational_fiat", "FIAT", "operational_fiat-op", none, "ACTIVE", 0⟩ ]
  postings := [⟨"bal1", none, none, "POSTED", "h2", 0⟩]
  entries :=
    [ ⟨"e1", "bal1", "uc", "DEBIT", 100, "USD", 1, genesisHash, "h1", 0⟩,
      ⟨"e2", "bal1", "op", "CREDIT", 100, "USD", 2, "h1", "h2", 0⟩ ]
  hashChain := [⟨"bal1", "h2", "h2", 0⟩]

/-- The call on these tables, where the given queries fail. -/
def bookedSnapshots (failing : List SummaryStmt) : Option (List BalanceSnapshot × Summaries) :=
  runAlone (summaryExec (fun o => decide (o ∈ failing)) bookedTables 0)
    (writeSnapshotsPool sampleSupply) (.start [] [])

theorem bookedSnapshots_ran (failing : List SummaryStmt) (h : (bookedSnapshots failing).isSome) :
    Ran (SummaryExec (fun o => decide (o ∈ failing) = true) bookedTables 0)
      (writeSnapshotsPool sampleSupply) (.start [] []) ((bookedSnapshots failing).get h).1
      ((bookedSnapshots failing).get h).2 :=
  ran_runAlone summary_exec_sound _ _ h

/-- The read of a pair that is not listed would fail: the snapshots are right. -/
theorem snapshots_right_iff_sample :
    SnapshotsRight (fun o => decide (o ∈ [SummaryStmt.selectSum "uc" "EUR"]) = true) bookedTables
      ((bookedSnapshots [.selectSum "uc" "EUR"]).get rfl).1
      ((bookedSnapshots [.selectSum "uc" "EUR"]).get rfl).2 :=
  (snapshots_right_iff _ bookedTables (by decide) sampleSupply [] [] _ _
    (bookedSnapshots_ran _ rfl)).mpr (Or.inr (by decide))

/-- The read of a balance fails: a balance of 0 with the last entry of the pair is returned and
    written. -/
theorem failed_balance_written :
    ∃ snaps s, Ran (SummaryExec (fun o => decide (o ∈ [SummaryStmt.selectSum "uc" "USD"]) = true)
        bookedTables 0) (writeSnapshotsPool sampleSupply) (.start [] []) snaps s ∧
      (∃ snap ∈ snaps, (snap.accountId, snap.asset) = ("uc", "USD") ∧
        ¬ RowRight bookedTables.entries snap.row) ∧
      ∃ row ∈ s.table, (row.accountId, row.asset, row.balance, row.lastEntryId) =
        ("uc", "USD", 0, "e1") ∧ ¬ RowRight bookedTables.entries row :=
  ⟨_, _, bookedSnapshots_ran [.selectSum "uc" "USD"] rfl, by decide, by decide⟩

end LedgerAccounting
