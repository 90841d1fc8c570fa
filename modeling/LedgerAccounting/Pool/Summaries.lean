/-
  File:      LedgerAccounting/Pool/Summaries.lean
  Subject:   `Store::user_custodial_sum` and `Store::write_snapshots` with a pool, as scripts of
             queries, and what each query answers on the committed tables.

  Both list what they are about with a first query and then ask one or two queries for each item;
  every query is a statement on the pool of its own. None of them ends the call when it fails: a
  list that could not be read is empty, a balance that could not be read adds nothing or counts as
  0, a last entry that could not be read counts as none, a failed insert is not noticed.

  * `summary_exec_sound`: the executable run is a run of the database.
-/
import LedgerAccounting.Lib.Script
import LedgerAccounting.Pool.Reads

namespace LedgerAccounting

open Script

/-! ## 1. The statements -/

inductive SummaryStmt where
  | selectCustodial
  | selectSum (accountId asset : String)
  | selectPairs
  | selectLast (accountId asset : String)
  | insertSnapshot (row : SnapshotRow)
  /-- Not a statement: the store replaces its own list of snapshots. -/
  | cacheSnapshots (snaps : List BalanceSnapshot)
  deriving DecidableEq

abbrev SummaryReply : SummaryStmt → Type
  | .selectCustodial => Except String (List String)
  | .selectSum _ _ => Except String Int
  | .selectPairs => Except String (List (String × String))
  | .selectLast _ _ => Except String (Option (String × Nat))
  | .insertSnapshot _ => Except String Unit
  | .cacheSnapshots _ => Unit

def issueSummary (o : SummaryStmt) : Script SummaryStmt SummaryReply (SummaryReply o) := perform o

/-! ## 2. `user_custodial_sum` -/

/-- The loop over the accounts. -/
def custodialLoop (asset : String) : Int → List String → Script SummaryStmt SummaryReply Int
  | total, [] => return total
  | total, accountId :: rest => do
    let sum ← issueSummary (.selectSum accountId asset)
    custodialLoop asset (addBalance total (balanceFromDb sum)) rest

def userCustodialSumPool (asset : String) : Script SummaryStmt SummaryReply Int := do
  match ← issueSummary .selectCustodial with
  | .error _ => return 0
  | .ok accounts => custodialLoop asset 0 accounts

/-! ## 3. `write_snapshots` -/

/-- `.ok().flatten().unwrap_or_default()`. -/
def foundLast : Except String (Option (String × Nat)) → String × Nat
  | .ok (some last) => last
  | .ok none => ("", 0)
  | .error _ => ("", 0)

/-- The row the store binds for a snapshot. -/
def BalanceSnapshot.row (s : BalanceSnapshot) : SnapshotRow where
  accountId := s.accountId
  asset := s.asset
  balance := s.balance
  asOfTs := secs s.asOfTs
  lastEntryId := s.lastEntryId

/-- The loop over the pairs, with the snapshots taken so far. -/
def snapshotLoop (sup : Supply) : List BalanceSnapshot → List (String × String) →
    Script SummaryStmt SummaryReply (List BalanceSnapshot)
  | snaps, [] => return snaps
  | snaps, (accountId, asset) :: rest => do
    let bal := (balanceFromDb (← issueSummary (.selectSum accountId asset))).getD 0
    let last := foundLast (← issueSummary (.selectLast accountId asset))
    let snap : BalanceSnapshot :=
      { accountId := accountId
        asset := asset
        balance := bal
        asOfTs := sup.nowIso snaps.length
        lastEntryId := last.1
        lastSequence := last.2 }
    let _ ← issueSummary (.insertSnapshot snap.row)
    snapshotLoop sup (snaps ++ [snap]) rest

/-- `write_snapshots` with a pool. -/
def writeSnapshotsPool (sup : Supply) : Script SummaryStmt SummaryReply (List BalanceSnapshot) := do
  match ← issueSummary .selectPairs with
  | .error _ => return []
  | .ok pairs =>
    let snaps ← snapshotLoop sup [] pairs
    issueSummary (.cacheSnapshots snaps)
    return snaps

/-! ## 4. What the queries ask for -/

/-- The entries of the pair. -/
def ofPair (l : List EntryRow) (accountId asset : String) : List EntryRow :=
  l.filter fun e => e.accountId == accountId && e.asset == asset

/-- `pairs` is a result of `SELECT DISTINCT account_id, asset`, in some order. -/
def IsPairs (l : List EntryRow) (pairs : List (String × String)) : Prop :=
  pairs.Nodup ∧ ∀ p, p ∈ pairs ↔ ∃ e ∈ l, (e.accountId, e.asset) = p

/-- `last` is a result of `SELECT entry_id, sequence_number ... DESC LIMIT 1` for the pair. -/
def IsLastEntry (l : List EntryRow) (accountId asset : String) : Option (String × Nat) → Prop
  | none => ofPair l accountId asset = []
  | some last => ∃ e ∈ ofPair l accountId asset, (e.entryId, e.sequenceNumber) = last ∧
      ∀ e' ∈ ofPair l accountId asset, e'.sequenceNumber ≤ e.sequenceNumber

/-- The signed amount of a row, as the sums of the queries count it. -/
def EntryRow.signed (e : EntryRow) : Int :=
  if e.direction = "DEBIT" then (e.amount : Int) else -e.amount

/-- The signed sum of the entries of the pair up to a sequence number. -/
def sumUpTo (l : List EntryRow) (accountId asset : String) (n : Nat) : Int :=
  (((ofPair l accountId asset).filter fun e => decide (e.sequenceNumber ≤ n)).map (·.signed)).sum

/-- The balance of the row is that of its pair up to the entry the row names as the last one. -/
def RowRight (l : List EntryRow) (row : SnapshotRow) : Prop :=
  ∃ e ∈ l, e.entryId = row.lastEntryId ∧
    row.balance = sumUpTo l row.accountId row.asset e.sequenceNumber

instance (l : List EntryRow) (row : SnapshotRow) : Decidable (RowRight l row) :=
  inferInstanceAs (Decidable (∃ e ∈ l, e.entryId = row.lastEntryId ∧
    row.balance = sumUpTo l row.accountId row.asset e.sequenceNumber))

theorem mem_ofPair {l : List EntryRow} {accountId asset : String} {e : EntryRow} :
    e ∈ ofPair l accountId asset ↔ e ∈ l ∧ e.accountId = accountId ∧ e.asset = asset := by
  unfold ofPair
  simp only [List.mem_filter, Bool.and_eq_true, beq_iff_eq]

/-- A pair that has an entry has a last one. -/
theorem isLastEntry_booked {l : List EntryRow} {accountId asset : String}
    {found : Option (String × Nat)} (h : IsLastEntry l accountId asset found)
    (hbooked : ∃ e ∈ l, (e.accountId, e.asset) = (accountId, asset)) :
    ∃ e ∈ ofPair l accountId asset, found = some (e.entryId, e.sequenceNumber) ∧
      ∀ e' ∈ ofPair l accountId asset, e'.sequenceNumber ≤ e.sequenceNumber := by
  cases found with
  | none =>
    obtain ⟨e, he, hpair⟩ := hbooked
    obtain ⟨haccount, hasset⟩ := Prod.mk.inj hpair
    have hmem := mem_ofPair.mpr ⟨he, haccount, hasset⟩
    rw [show ofPair l accountId asset = [] from h] at hmem
    cases hmem
  | some last =>
    obtain ⟨e, he, rfl, hmax⟩ := h
    exact ⟨e, he, rfl, hmax⟩

theorem ofPair_append (l m : List EntryRow) (accountId asset : String) :
    ofPair (l ++ m) accountId asset = ofPair l accountId asset ++ ofPair m accountId asset :=
  List.filter_append ..

theorem sumSigned_append (l m : List EntryRow) (accountId asset : String) :
    sumSigned (l ++ m) accountId asset =
      sumSigned l accountId asset + sumSigned m accountId asset := by
  unfold sumSigned
  rw [List.filter_append, List.map_append, List.sum_append]

/-- The query for one asset sums the entries of the pair. -/
theorem sumSigned_named (l : List EntryRow) (accountId : String) {asset : String}
    (h : asset ≠ "") : sumSigned l accountId asset =
      ((ofPair l accountId asset).map (·.signed)).sum := by
  have hempty : (asset == "") = false := beq_eq_false_iff_ne.mpr h
  unfold sumSigned ofPair
  simp only [hempty, Bool.false_or]
  rfl

theorem sumUpTo_append (l m : List EntryRow) (accountId asset : String) (n : Nat) :
    sumUpTo (l ++ m) accountId asset n =
      sumUpTo l accountId asset n + sumUpTo m accountId asset n := by
  unfold sumUpTo
  rw [ofPair_append, List.filter_append, List.map_append, List.sum_append]

/-- Up to a number that none of its entries exceeds, the sum is that of the whole pair. -/
theorem sumUpTo_all {l : List EntryRow} {accountId asset : String} {n : Nat}
    (h : ∀ e ∈ ofPair l accountId asset, e.sequenceNumber ≤ n) (hasset : asset ≠ "") :
    sumUpTo l accountId asset n = sumSigned l accountId asset := by
  have hall : ((ofPair l accountId asset).filter fun e => decide (e.sequenceNumber ≤ n)) =
      ofPair l accountId asset :=
    List.filter_eq_self.mpr fun e he => decide_eq_true (h e he)
  rw [sumSigned_named l accountId hasset, sumUpTo, hall]

/-! ## 5. What a query may do -/

/-- A query about an account and asset ran when so many transactions were committed. -/
structure PairRead where
  accountId : String
  asset : String
  committed : Nat
  deriving DecidableEq, Repr

/-- A row the call has written, with the last balance and the last entry it had read by then. -/
structure Written where
  row : SnapshotRow
  sum : Option PairRead
  last : Option PairRead

/-- The table `balance_snapshots`, the list of the store, and the reads of balances, the reads of
    last entries and the rows written by the call so far. -/
structure Summaries where
  table : List SnapshotRow
  cache : List BalanceSnapshot
  sums : List PairRead
  lasts : List PairRead
  written : List Written

/-- A call begins. -/
def Summaries.start (table : List SnapshotRow) (cache : List BalanceSnapshot) : Summaries where
  table := table
  cache := cache
  sums := []
  lasts := []
  written := []

/-- The primary key of `balance_snapshots`. -/
def SnapshotRow.SameKey (a b : SnapshotRow) : Prop :=
  a.accountId = b.accountId ∧ a.asset = b.asset ∧ a.asOfTs = b.asOfTs

instance (a b : SnapshotRow) : Decidable (a.SameKey b) :=
  inferInstanceAs (Decidable (a.accountId = b.accountId ∧ a.asset = b.asset ∧ a.asOfTs = b.asOfTs))

/-- `ON CONFLICT (account_id, asset, as_of_ts) DO NOTHING`. -/
def Summaries.insert (s : Summaries) (row : SnapshotRow) : Summaries :=
  if ∃ old ∈ s.table, old.SameKey row then s
  else
    { s with
      table := s.table ++ [row]
      written := s.written ++ [⟨row, s.sums.getLast?, s.lasts.getLast?⟩] }

/-- The query fails, or its result meets `p`. -/
def AnswersUnless {α : Type} (failed : Prop) (p : α → Prop) : Except String α → Prop
  | .ok a => ¬ failed ∧ p a
  | .error _ => failed

/-- A query that does not fail has a result. -/
theorem AnswersUnless.ok {α : Type} {failed : Prop} {p : α → Prop} {r : Except String α}
    (h : AnswersUnless failed p r) (hf : ¬ failed) : ∃ a, r = .ok a ∧ p a := by
  cases r with
  | error e => exact absurd h hf
  | ok a => exact ⟨a, rfl, h.2⟩

section Exec

variable (fails : SummaryStmt → Prop) (t : Tables) (n : Nat)

/-- **A query on the committed tables `t`**, when `n` transactions are committed, may answer `r` and
    leave `s'`; of those that fail an insert may have been applied. -/
def SummaryExec : (o : SummaryStmt) → Summaries → SummaryReply o → Summaries → Prop
  | .selectCustodial, s, r, s' => s' = s ∧
      AnswersUnless (fails .selectCustodial) (·.Perm (custodialIds t.accounts)) r
  | .selectSum accountId asset, s, r, s' =>
      s' = { s with sums := s.sums ++ [⟨accountId, asset, n⟩] } ∧
      AnswersUnless (fails (.selectSum accountId asset)) (· = sumSigned t.entries accountId asset) r
  | .selectPairs, s, r, s' => s' = s ∧ AnswersUnless (fails .selectPairs) (IsPairs t.entries) r
  | .selectLast accountId asset, s, r, s' =>
      s' = { s with lasts := s.lasts ++ [⟨accountId, asset, n⟩] } ∧
      AnswersUnless (fails (.selectLast accountId asset)) (IsLastEntry t.entries accountId asset) r
  | .insertSnapshot row, s, r, s' =>
      AnswersUnless (fails (.insertSnapshot row)) (fun _ => True) r ∧
      (s' = s.insert row ∨ fails (.insertSnapshot row) ∧ s' = s)
  | .cacheSnapshots snaps, s, _, s' => s' = { s with cache := snaps }

end Exec

/-! ## 6. Executable runs -/

/-- The pairs of account and asset in the order of their first entries. -/
def pairsOf (l : List EntryRow) : List (String × String) :=
  (l.map fun e => (e.accountId, e.asset)).dedup

def lastEntryOf (l : List EntryRow) (accountId asset : String) : Option (String × Nat) :=
  (bySequence (ofPair l accountId asset)).getLast?.map fun e => (e.entryId, e.sequenceNumber)

section Executable

variable (fails : SummaryStmt → Bool) (t : Tables) (n : Nat)

/-- The answer, or an error where the query fails. -/
def unlessFails {α : Type} (o : SummaryStmt) (a : α) : Except String α :=
  if fails o then .error "connection closed" else .ok a

/-- The query, with the given failures; an insert that fails is not applied. -/
def summaryExec : (o : SummaryStmt) → Summaries → Option (SummaryReply o × Summaries)
  | .selectCustodial, s => some (unlessFails fails .selectCustodial (custodialIds t.accounts), s)
  | .selectSum accountId asset, s =>
    some (unlessFails fails (.selectSum accountId asset) (sumSigned t.entries accountId asset),
      { s with sums := s.sums ++ [⟨accountId, asset, n⟩] })
  | .selectPairs, s => some (unlessFails fails .selectPairs (pairsOf t.entries), s)
  | .selectLast accountId asset, s =>
    some (unlessFails fails (.selectLast accountId asset)
      (lastEntryOf t.entries accountId asset),
      { s with lasts := s.lasts ++ [⟨accountId, asset, n⟩] })
  | .insertSnapshot row, s =>
    some (unlessFails fails (.insertSnapshot row) (),
      if fails (.insertSnapshot row) then s else s.insert row)
  | .cacheSnapshots snaps, s => some ((), { s with cache := snaps })

variable {fails t n}

theorem answers_unlessFails {α : Type} {o : SummaryStmt} {a : α} {p : α → Prop} (h : p a) :
    AnswersUnless (fails o = true) p (unlessFails fails o a) := by
  unfold unlessFails
  by_cases hf : fails o = true
  · rw [if_pos hf]
    exact hf
  · rw [if_neg hf]
    exact ⟨hf, h⟩

theorem pairsOf_isPairs (l : List EntryRow) : IsPairs l (pairsOf l) := by
  refine ⟨List.nodup_dedup _, fun p => ?_⟩
  rw [pairsOf, List.mem_dedup, List.mem_map]

theorem lastEntryOf_isLast (l : List EntryRow) (accountId asset : String) :
    IsLastEntry l accountId asset (lastEntryOf l accountId asset) := by
  unfold lastEntryOf
  have hlast := bySequence_last (ofPair l accountId asset)
  cases h : (bySequence (ofPair l accountId asset)).getLast? with
  | none =>
    rw [h] at hlast
    exact hlast
  | some e =>
    rw [h] at hlast
    exact ⟨e, hlast.1, rfl, hlast.2⟩

/-- **The executable run is a run of the database.** -/
theorem summary_exec_sound (o : SummaryStmt) (s : Summaries) (r : SummaryReply o) (s' : Summaries)
    (h : summaryExec fails t n o s = some (r, s')) :
    SummaryExec (fun o => fails o = true) t n o s r s' := by
  cases o with
  | selectCustodial => cases h; exact ⟨rfl, answers_unlessFails (List.Perm.refl _)⟩
  | selectSum accountId asset => cases h; exact ⟨rfl, answers_unlessFails rfl⟩
  | selectPairs => cases h; exact ⟨rfl, answers_unlessFails (pairsOf_isPairs _)⟩
  | selectLast accountId asset =>
    cases h
    exact ⟨rfl, answers_unlessFails (lastEntryOf_isLast _ _ _)⟩
  | insertSnapshot row =>
    cases h
    refine ⟨answers_unlessFails trivial, ?_⟩
    by_cases hf : fails (.insertSnapshot row) = true
    · exact Or.inr ⟨hf, if_pos hf⟩
    · exact Or.inl (if_neg hf)
  | cacheSnapshots snaps => cases h; rfl

end Executable

end LedgerAccounting
