/-
  File:      LedgerAccounting/Pool/Reads.lean
  Subject:   The reads of a store with a pool and `Store::hydrate`, as functions of what their
             queries answer, and what the queries ask of the tables.

  A sum of amounts is an integer here: fewer than 2^63 amounts of 64 bits fit an `i128`.

  * `hydrate_spec`: what `hydrate` builds from tables whose keys are distinct.
-/
import LedgerAccounting.Pool.Tables
import LedgerAccounting.HashChain
import LedgerAccounting.Lib.Keyed
import LedgerAccounting.Lib.Runs

namespace LedgerAccounting

open Keyed Linked

/-! ## 1. Rows as records -/

def AccountRow.record (a : AccountRow) : Account where
  accountId := a.accountId
  typeName := a.typeName
  assetClass := a.assetClass
  label := a.label
  parentId := a.parentId
  status := a.status
  createdAt := toString a.createdAt

def PostingRow.record (p : PostingRow) (entries : List EntryRecord) : PostingRecord where
  postingId := p.postingId
  refTxId := p.refTxId
  memo := p.memo
  status := p.status
  hashHead := p.hashChainHead
  entries := entries
  createdAt := toString p.createdAt

def AnchorRow.record (a : AnchorRow) : HashChainAnchor where
  postingId := a.postingId
  headHash := a.headHash
  globalSequenceHead := a.globalSequenceHead
  createdAt := toString a.createdAt

/-! ## 2. What the queries ask for -/

/-- `SUM(CASE direction WHEN 'DEBIT' THEN amount ELSE -amount END)` over the rows of one account, in
    one asset or, for the empty text, in all of them. -/
def sumSigned (l : List EntryRow) (accountId asset : String) : Int :=
  ((l.filter fun e => e.accountId == accountId && (asset == "" || e.asset == asset)).map fun e =>
    if e.direction = "DEBIT" then (e.amount : Int) else -e.amount).sum

/-- `SELECT account_id FROM accounts WHERE type_name = 'user_custodial'`, in some order. -/
def custodialIds (l : List AccountRow) : List String :=
  (l.filter fun a => a.typeName == "user_custodial").map (·.accountId)

/-! ## 3. The reads -/

/-- `Store::get_posting` with a pool, on the results of its two reads. -/
def getPostingDb (posting : Except String (Option PostingRow))
    (entries : Except String (List EntryRow)) : Option PostingRecord :=
  match posting with
  | .error _ => none
  | .ok none => none
  | .ok (some p) =>
    match entries with
    | .error _ => none
    | .ok rows => some (p.record (rows.map (·.record)))

def hashChainAnchorDb (anchor : Except String (Option AnchorRow)) : Option HashChainAnchor :=
  match anchor with
  | .error _ => none
  | .ok row => row.map (·.record)

def globalChainHeadDb (lastHash : Except String (Option String)) : String :=
  match lastHash with
  | .error _ => genesisHash
  | .ok found => found.getD genesisHash

/-- `balance_from_db`. -/
def balanceFromDb (sum : Except String Int) : Option Int :=
  match sum with
  | .error _ => none
  | .ok n => some n

/-- `Store::balance` with a pool: the account has to exist. -/
def balanceDb (found : Except String (Option String)) (sum : Except String Int) : Option Int :=
  match found with
  | .error _ => none
  | .ok none => none
  | .ok (some _) => balanceFromDb sum

/-- A balance that could not be read adds nothing. -/
def addBalance (total : Int) : Option Int → Int
  | some b => total + b
  | none => total

/-- `Store::user_custodial_sum` with a pool, on the account ids and the sum of each. -/
def userCustodialSumDb (accounts : Except String (List String))
    (sums : String → Except String Int) : Int :=
  match accounts with
  | .error _ => 0
  | .ok ids => ids.foldl (fun total id => addBalance total (balanceFromDb (sums id))) 0

/-! ## 4. `Store::hydrate` -/

structure SnapshotRow where
  accountId : String
  asset : String
  balance : Int
  asOfTs : Nat
  lastEntryId : String
  deriving DecidableEq, Repr

/-- What the queries of `hydrate` answer; the last two are asked once for each snapshot. -/
structure HydrateReads where
  accounts : Except String (List AccountRow)
  entries : Except String (List EntryRow)
  postings : Except String (List PostingRow)
  anchors : Except String (List AnchorRow)
  snapshots : Except String (List SnapshotRow)
  lastEntry : String → Except String (Option String)
  lastSequence : String → Except String (Option Nat)

/-- The variables of the loop over the rows of `entries`. -/
structure HydrateLoop where
  byPosting : AList (fun _ : String => List EntryRecord)
  newEntries : List EntryRecord
  newSequence : Nat

/-- The body of that loop: an amount that is no `u64` ends it. -/
def HydrateLoop.push (l : HydrateLoop) (e : EntryRow) : Except String HydrateLoop :=
  if e.amount < 2 ^ 64 then
    let record := e.record
    .ok
      { byPosting := addToGroup EntryRecord.postingId l.byPosting record
        newEntries := l.newEntries ++ [record]
        newSequence :=
          if record.sequenceNumber > l.newSequence then record.sequenceNumber else l.newSequence }
  else .error "hydrate: invalid amount"

/-- The body of the loop over the rows of `postings`: it takes the entries of the posting out of
    `by_posting`. -/
def takePosting (acc : AList (fun _ : String => PostingRecord) ×
    AList (fun _ : String => List EntryRecord)) (p : PostingRow) :
    AList (fun _ : String => PostingRecord) × AList (fun _ : String => List EntryRecord) :=
  (acc.1.insert p.postingId (p.record ((acc.2.lookup p.postingId).getD [])),
    acc.2.erase p.postingId)

/-- The body of the loop over `balance_snapshots`: a balance that is no `i128` ends it. -/
def hydrateSnapshot (reads : HydrateReads) (s : SnapshotRow) : Except String BalanceSnapshot := do
  if -2 ^ 127 ≤ s.balance ∧ s.balance < 2 ^ 127 then
    let entryId ← (reads.lastEntry s.lastEntryId).mapError fun e =>
      s!"hydrate snapshot last_entry lookup failed: {e}"
    let sequence ← (reads.lastSequence s.lastEntryId).mapError fun e =>
      s!"hydrate snapshot last_seq lookup failed: {e}"
    return ⟨s.accountId, s.asset, s.balance, toString s.asOfTs, entryId.getD "", sequence.getD 0⟩
  else throw "hydrate: invalid snapshot balance"

/-- `Store::hydrate` with a pool: the state of the store is replaced once everything is read. -/
def hydrate (reads : HydrateReads) (state : LedgerState) : Except String LedgerState := do
  let accounts ← reads.accounts.mapError fun e => s!"hydrate accounts failed: {e}"
  let newAccounts := indexed AccountRow.accountId AccountRow.record accounts
  let entries ← reads.entries.mapError fun e => s!"hydrate entries failed: {e}"
  let loop ← entries.foldlM HydrateLoop.push ⟨∅, [], 0⟩
  let postings ← reads.postings.mapError fun e => s!"hydrate postings failed: {e}"
  let newPostings := (postings.foldl takePosting (∅, loop.byPosting)).1
  let anchors ← reads.anchors.mapError fun e => s!"hydrate anchors failed: {e}"
  let newAnchors := indexed AnchorRow.postingId AnchorRow.record anchors
  let snapshots ← reads.snapshots.mapError fun e => s!"hydrate snapshots failed: {e}"
  let newSnapshots ← snapshots.mapM (hydrateSnapshot reads)
  return { state with
    accounts := newAccounts
    postings := newPostings
    entries := loop.newEntries
    hashChainAnchors := newAnchors
    snapshots := newSnapshots
    sequence := loop.newSequence
    globalChainHead := (loop.newEntries.getLast?.map (·.thisHash)).getD genesisHash }

/-! ## 5. What `hydrate` builds -/

/-- The state holds what the tables hold. -/
structure Mirrors (t : Tables) (s : LedgerState) : Prop where
  accounts : ∀ id, s.accounts.lookup id =
    (rowAt AccountRow.accountId t.accounts id).map AccountRow.record
  postings : ∀ id, s.postings.lookup id = (rowAt PostingRow.postingId t.postings id).map fun p =>
    p.record ((entriesOf t.entries id).map (·.record))
  entries : s.entries = t.entries.map (·.record)
  anchors : ∀ id, s.hashChainAnchors.lookup id =
    (rowAt AnchorRow.postingId t.hashChain id).map AnchorRow.record
  sequence : s.sequence = maxSequence t.entries
  head : s.globalChainHead = entriesHead genesisHash s.entries

/-- The primary keys of the tables, amounts that are `u64`s, and rows of `entries` that are numbered
    upwards. -/
structure Tables.Sound (t : Tables) : Prop where
  accountIds : (t.accounts.map (·.accountId)).Nodup
  postingIds : (t.postings.map (·.postingId)).Nodup
  anchorIds : (t.hashChain.map (·.postingId)).Nodup
  amounts : ∀ e ∈ t.entries, e.amount < 2 ^ 64
  increasing : t.entries.Pairwise fun a b => a.sequenceNumber < b.sequenceNumber

/-- The queries of `hydrate` on the tables, none of them failing: the rows of each table, the
    entries by number, and the two look-ups of an entry. -/
structure HydrateReads.Of (reads : HydrateReads) (t : Tables) (snapshots : List SnapshotRow) :
    Prop where
  accounts : ∃ rows, reads.accounts = .ok rows ∧ rows.Perm t.accounts
  entries : ∃ rows, reads.entries = .ok rows ∧ Ordered t.entries rows
  postings : ∃ rows, reads.postings = .ok rows ∧ rows.Perm t.postings
  anchors : ∃ rows, reads.anchors = .ok rows ∧ rows.Perm t.hashChain
  snapshots : ∃ rows, reads.snapshots = .ok rows ∧ rows.Perm snapshots
  lastEntry : ∀ id, reads.lastEntry id = .ok ((rowAt EntryRow.entryId t.entries id).map (·.entryId))
  lastSequence : ∀ id,
    reads.lastSequence id = .ok ((rowAt EntryRow.entryId t.entries id).map (·.sequenceNumber))

section Hydrate

/-- The loop over the rows of `entries`, from the variables `l`. -/
theorem hydrateLoop_ok {rows : List EntryRow} (h : ∀ e ∈ rows, e.amount < 2 ^ 64)
    (l : HydrateLoop) : rows.foldlM HydrateLoop.push l = .ok
      { byPosting := (rows.map (·.record)).foldl (addToGroup EntryRecord.postingId) l.byPosting
        newEntries := l.newEntries ++ rows.map (·.record)
        newSequence := max l.newSequence (maxSequence rows) } := by
  induction rows generalizing l with
  | nil => simp [maxSequence, pure, Except.pure]
  | cons e rows ih =>
    rw [List.forall_mem_cons] at h
    have hpush : l.push e = .ok
        { byPosting := addToGroup EntryRecord.postingId l.byPosting e.record
          newEntries := l.newEntries ++ [e.record]
          newSequence := max l.newSequence e.sequenceNumber } := by
      unfold HydrateLoop.push
      simp only [h.1, if_true, Except.ok.injEq, HydrateLoop.mk.injEq, true_and]
      rw [show e.record.sequenceNumber = e.sequenceNumber from rfl]
      split <;> omega
    rw [List.foldlM_cons, hpush]
    simp only [bind, Except.bind]
    rw [ih h.2]
    simp only [maxSequence, List.map_cons, List.foldl_cons, List.foldr_cons, List.append_assoc,
      List.cons_append, List.nil_append, Nat.max_assoc]

/-- The loop over the rows of `postings` indexes them with their entries, where their ids are
    distinct. -/
theorem takePosting_foldl {rows : List PostingRow} (hn : (rows.map (·.postingId)).Nodup)
    (byPosting : AList (fun _ : String => List EntryRecord)) :
    (rows.foldl takePosting (∅, byPosting)).1 = indexed PostingRow.postingId
      (fun p => p.record ((byPosting.lookup p.postingId).getD [])) rows ∧
    ∀ id, (∀ p ∈ rows, p.postingId ≠ id) →
      (rows.foldl takePosting (∅, byPosting)).2.lookup id = byPosting.lookup id := by
  induction rows using List.reverseRecOn with
  | nil => exact ⟨rfl, fun _ _ => rfl⟩
  | append_singleton rows p ih =>
    rw [List.map_append, List.nodup_append] at hn
    obtain ⟨hfirst, hrest⟩ := ih hn.1
    have hfree : ∀ q ∈ rows, q.postingId ≠ p.postingId := fun q hq =>
      hn.2.2 _ (List.mem_map_of_mem hq) _ (List.mem_singleton_self _)
    rw [List.foldl_append, List.foldl_cons, List.foldl_nil]
    refine ⟨?_, fun id hid => ?_⟩
    · unfold takePosting indexed at *
      rw [hrest _ hfree, hfirst, List.foldl_append]
      rfl
    · have hne : id ≠ p.postingId :=
        (hid p (List.mem_append_right _ (List.mem_singleton_self p))).symm
      unfold takePosting
      rw [AList.lookup_erase_ne hne]
      exact hrest id fun q hq => hid q (List.mem_append_left _ hq)

theorem hydrateSnapshot_ok {reads : HydrateReads} {t : Tables} {snapshots : List SnapshotRow}
    (h : reads.Of t snapshots) {s : SnapshotRow}
    (hs : -2 ^ 127 ≤ s.balance ∧ s.balance < 2 ^ 127) :
    ∃ snap, hydrateSnapshot reads s = .ok snap := by
  unfold hydrateSnapshot
  rw [if_pos hs, h.lastEntry, h.lastSequence]
  exact ⟨_, rfl⟩

/-- The entries grouped by posting are the rows of the posting. -/
theorem grouped_entriesOf (l : List EntryRow) (id : String) :
    (((l.map (·.record)).foldl (addToGroup EntryRecord.postingId) ∅).lookup id).getD [] =
      (entriesOf l id).map (·.record) := by
  rw [lookup_grouped, List.filter_map]
  rfl

/-- **`hydrate` builds a state that mirrors the tables.** -/
theorem hydrate_spec {reads : HydrateReads} {t : Tables} {snapshots : List SnapshotRow}
    (h : reads.Of t snapshots) (ht : t.Sound)
    (hs : ∀ s ∈ snapshots, -2 ^ 127 ≤ s.balance ∧ s.balance < 2 ^ 127) (state : LedgerState) :
    ∃ s, hydrate reads state = .ok s ∧ Mirrors t s := by
  obtain ⟨accounts, haccounts, hpaccounts⟩ := h.accounts
  obtain ⟨entries, hentries, hordered⟩ := h.entries
  obtain ⟨postings, hpostings, hppostings⟩ := h.postings
  obtain ⟨anchors, hanchors, hpanchors⟩ := h.anchors
  obtain ⟨rows, hrows, hprows⟩ := h.snapshots
  obtain rfl := ordered_unique hordered ht.increasing
  have hsnaps : ∃ snaps, rows.mapM (hydrateSnapshot reads) = .ok snaps := by
    cases hm : rows.mapM (hydrateSnapshot reads) with
    | ok snaps => exact ⟨snaps, rfl⟩
    | error e =>
      obtain ⟨s, hmem, he⟩ := Runs.mapM_error hm
      obtain ⟨snap, hok⟩ := hydrateSnapshot_ok h (hs s (hprows.subset hmem))
      rw [hok] at he
      cases he
  obtain ⟨snaps, hsnaps⟩ := hsnaps
  have haccountIds : (accounts.map (·.accountId)).Nodup :=
    ((hpaccounts.map _).nodup_iff).mpr ht.accountIds
  have hpostingIds : (postings.map (·.postingId)).Nodup :=
    ((hppostings.map _).nodup_iff).mpr ht.postingIds
  have hanchorIds : (anchors.map (·.postingId)).Nodup :=
    ((hpanchors.map _).nodup_iff).mpr ht.anchorIds
  refine ⟨_, by
    unfold hydrate
    rw [haccounts, hentries, hpostings, hanchors, hrows]
    simp only [Except.mapError, bind, Except.bind, hydrateLoop_ok ht.amounts, hsnaps]
    rfl, ?_⟩
  refine ⟨fun id => ?_, fun id => ?_, rfl, fun id => ?_, Nat.zero_max _,
    (headFrom_eq_getLast _ _ _).symm⟩
  · rw [lookup_indexed _ haccountIds, rowAt_perm ht.accountIds hpaccounts]
  · rw [(takePosting_foldl hpostingIds _).1, lookup_indexed _ hpostingIds,
      rowAt_perm ht.postingIds hppostings]
    cases hrow : rowAt PostingRow.postingId t.postings id with
    | none => rfl
    | some p =>
      obtain ⟨_, rfl⟩ := rowAt_mem hrow
      simp only [Option.map_some, grouped_entriesOf]
  · rw [lookup_indexed _ hanchorIds, rowAt_perm ht.anchorIds hpanchors]

end Hydrate

end LedgerAccounting
