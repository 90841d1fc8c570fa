/-
  File:      LedgerAccounting/Snapshot.lean
  Subject:   Balances and balance snapshots computed from the entries (`compute_balance` of
             `store.rs`, `snapshot.rs`).
-/
import LedgerAccounting.State
import LedgerAccounting.Lib.DoubleEntry
import LedgerAccounting.Lib.Keyed

namespace LedgerAccounting

/-! ## 1. Balances -/

/-- The entries of one account, in one asset or, for the empty text, in all of them. -/
def matching (entries : List EntryRecord) (accountId asset : String) : List EntryRecord :=
  (entries.filter fun e => e.accountId == accountId).filter fun e =>
    asset.isEmpty || e.asset == asset

/-- The signed amount of an entry; a direction that is none counts nothing. -/
def EntryRecord.signed (e : EntryRecord) : Int :=
  match e.direction with
  | "DEBIT" => e.amount
  | "CREDIT" => -e.amount
  | _ => 0

def computeBalance (state : LedgerState) (accountId asset : String) : Int :=
  (matching state.entries accountId asset).foldl (fun acc e => acc + e.signed) 0

/-! ## 2. Snapshots -/

def buildSnapshot (state : LedgerState) (accountId asset nowIso : String) : BalanceSnapshot :=
  let acc := (matching state.entries accountId asset).foldl
    (fun (acc : Int × String × Nat) e => (acc.1 + e.signed, e.entryId, e.sequenceNumber))
    (0, "", 0)
  { accountId := accountId
    asset := if asset.isEmpty then "all" else asset
    balance := acc.1
    asOfTs := nowIso
    lastEntryId := acc.2.1
    lastSequence := acc.2.2 }

/-- The body of the loop of `snapshot_all`, over the pairs seen and the snapshots taken so far. -/
def snapshotStep (sup : Supply) (state : LedgerState)
    (acc : Finset (String × String) × List BalanceSnapshot) (e : EntryRecord) :
    Finset (String × String) × List BalanceSnapshot :=
  let key := (e.accountId, e.asset)
  if key ∈ acc.1 then acc
  else
    (insert key acc.1,
      acc.2 ++ [buildSnapshot state e.accountId e.asset (sup.nowIso acc.2.length)])

def snapshotAll (sup : Supply) (state : LedgerState) : List BalanceSnapshot :=
  (state.entries.foldl (snapshotStep sup state) (∅, [])).2

/-- `reconcile_snapshot`; the snapshot it computes is stamped with `nowIso`. -/
def reconcileSnapshot (state : LedgerState) (snap : BalanceSnapshot) (nowIso : String) : Bool :=
  let computed := buildSnapshot state snap.accountId snap.asset nowIso
  computed.balance == snap.balance && computed.lastEntryId == snap.lastEntryId

/-- The filter closure of `entries_since`; `found` is the variable it captures. -/
def sinceFilter (afterEntryId : String) : Bool → List EntryRecord → List EntryRecord
  | _, [] => []
  | found, e :: l =>
    if found then e :: sinceFilter afterEntryId found l
    else if e.entryId == afterEntryId then sinceFilter afterEntryId true l
    else sinceFilter afterEntryId found l

def entriesSince (state : LedgerState) (afterEntryId : String) : List EntryRecord :=
  if afterEntryId.isEmpty then state.entries
  else sinceFilter afterEntryId false state.entries

/-! ## 3. The matching entries -/

theorem matching_all (entries : List EntryRecord) (accountId : String) :
    matching entries accountId "" = entries.filter fun e => e.accountId == accountId := by
  unfold matching
  rw [List.filter_eq_self.mpr]
  exact fun _ _ => rfl

theorem matching_named (entries : List EntryRecord) (accountId : String) {asset : String}
    (h : asset.isEmpty = false) :
    matching entries accountId asset =
      entries.filter fun e => e.accountId == accountId && e.asset == asset := by
  unfold matching
  simp only [List.filter_filter, h, Bool.false_or, Bool.and_comm]

theorem matching_sublist (l : List EntryRecord) (accountId asset : String) :
    (matching l accountId asset).Sublist (l.filter fun e => e.accountId == accountId) :=
  List.filter_sublist

theorem matching_sublist_all (l : List EntryRecord) (accountId asset : String) :
    (matching l accountId asset).Sublist l :=
  (matching_sublist l accountId asset).trans List.filter_sublist

theorem matching_subset (entries : List EntryRecord) (accountId asset : String) :
    matching entries accountId asset ⊆ entries :=
  (matching_sublist_all entries accountId asset).subset

theorem matching_append (old new : List EntryRecord) (accountId asset : String) :
    matching (old ++ new) accountId asset =
      matching old accountId asset ++ matching new accountId asset := by
  unfold matching
  rw [List.filter_append, List.filter_append]

theorem foldl_signed (l : List EntryRecord) (z : Int) :
    l.foldl (fun acc e => acc + e.signed) z = z + (l.map (·.signed)).sum := by
  induction l generalizing z with
  | nil => simp
  | cons e l ih =>
    rw [List.foldl_cons, ih, List.map_cons, List.sum_cons]
    omega

/-- The signed amounts of the entries a test selects, and of those it does not. -/
theorem signed_split (p : EntryRecord → Bool) (l : List EntryRecord) :
    (l.map (·.signed)).sum =
      ((l.filter p).map (·.signed)).sum + ((l.filter fun e => !p e).map (·.signed)).sum := by
  have hsplit := List.sum_map_filter_add_sum_map_filter_not (fun e => p e = true) (·.signed) l
  simpa using hsplit.symm

/-- A computed balance is the sum of the signed amounts of the matching entries. -/
theorem computeBalance_signed (state : LedgerState) (accountId asset : String) :
    computeBalance state accountId asset =
      ((matching state.entries accountId asset).map (·.signed)).sum := by
  unfold computeBalance
  rw [foldl_signed, zero_add]

/-! ## 4. What a snapshot holds -/

/-- The fold of `build_snapshot` adds up the signed amounts and keeps the last entry. -/
theorem foldl_snapshot (l : List EntryRecord) (z : Int × String × Nat) :
    l.foldl (fun (acc : Int × String × Nat) e =>
        (acc.1 + e.signed, e.entryId, e.sequenceNumber)) z =
      (z.1 + (l.map (·.signed)).sum, (l.getLast?.map (·.entryId)).getD z.2.1,
        (l.getLast?.map (·.sequenceNumber)).getD z.2.2) := by
  induction l using List.reverseRecOn with
  | nil => simp
  | append_singleton l e ih =>
    rw [List.foldl_append, ih]
    simp [add_assoc]

theorem buildSnapshot_asset (state : LedgerState) (accountId : String) {asset : String}
    (h : asset.isEmpty = false) (now : String) :
    (buildSnapshot state accountId asset now).asset = asset := by
  unfold buildSnapshot
  rw [h]
  rfl

theorem buildSnapshot_balance (state : LedgerState) (accountId asset now : String) :
    (buildSnapshot state accountId asset now).balance =
      ((matching state.entries accountId asset).map (·.signed)).sum := by
  unfold buildSnapshot
  rw [foldl_snapshot]
  exact zero_add _

theorem buildSnapshot_computed (state : LedgerState) (accountId asset now : String) :
    (buildSnapshot state accountId asset now).balance = computeBalance state accountId asset := by
  rw [buildSnapshot_balance, computeBalance_signed]

theorem buildSnapshot_lastEntryId (state : LedgerState) (accountId asset now : String) :
    (buildSnapshot state accountId asset now).lastEntryId =
      ((matching state.entries accountId asset).getLast?.map (·.entryId)).getD "" := by
  unfold buildSnapshot
  rw [foldl_snapshot]

theorem buildSnapshot_lastSequence (state : LedgerState) (accountId asset now : String) :
    (buildSnapshot state accountId asset now).lastSequence =
      ((matching state.entries accountId asset).getLast?.map (·.sequenceNumber)).getD 0 := by
  unfold buildSnapshot
  rw [foldl_snapshot]

/-- The pair an entry is booked on. -/
def EntryRecord.pair (e : EntryRecord) : String × String := (e.accountId, e.asset)

/-- **`snapshot_all` makes a snapshot of the first entry of every pair.** -/
theorem snapshotAll_eq (sup : Supply) (state : LedgerState) :
    snapshotAll sup state = Keyed.firsts EntryRecord.pair
      (fun n e => buildSnapshot state e.accountId e.asset (sup.nowIso n)) state.entries :=
  rfl

/-! ## 5. Balances as values of lines -/

/-- The entry as a line of Lib/DoubleEntry.lean. -/
def EntryRecord.line (e : EntryRecord) : DoubleEntry.Line String String Int :=
  ⟨e.accountId, e.asset, e.signed⟩

/-- The assets a query text selects: itself, or all of them. -/
def selects (asset : String) (a : String) : Bool := asset.isEmpty || a == asset

/-- **A computed balance is the balance of the lines.** -/
theorem computeBalance_eq (state : LedgerState) (accountId asset : String) :
    computeBalance state accountId asset =
      DoubleEntry.balance (state.entries.map (·.line)) accountId (selects asset) := by
  rw [computeBalance_signed]
  unfold matching DoubleEntry.balance DoubleEntry.value
  rw [List.filter_map, List.map_map, List.filter_filter]
  rfl

end LedgerAccounting
