/-
  File:      LedgerAccounting/Pool/SnapshotBalance.lean
  Subject:   `Store::balance_via_snapshot` with a pool, after calls of `create_account`, `post` and
             `write_snapshots` made one after another.

  The balance is the latest snapshot and the sum of the entries after it. This sum is cast to a
  `bigint`, and the call returns nothing when it is out of the range of one; the sum of
  `balance_from_db` is read as a text, into an `i128`.

  * `reached_sound`: every snapshot row holds the balance of its pair up to its last entry.
  * `via_snapshot_iff`: when the balance read through the snapshot is the balance.
-/
import LedgerAccounting.Pool.Accounts
import LedgerAccounting.Pool.Returns
import LedgerAccounting.Pool.Rows
import LedgerAccounting.Pool.Sequence
import LedgerAccounting.Pool.SnapshotFailures

namespace LedgerAccounting

open Keyed Script

/-! ## 1. The reads -/

/-- The row is of the account and in the asset or, for the empty text, in any. -/
def SnapshotRow.Matches (row : SnapshotRow) (accountId asset : String) : Prop :=
  row.accountId = accountId ∧ (asset = "" ∨ row.asset = asset)

instance (row : SnapshotRow) (accountId asset : String) : Decidable (row.Matches accountId asset) :=
  inferInstanceAs (Decidable (row.accountId = accountId ∧ (asset = "" ∨ row.asset = asset)))

/-- `found` is a result of `SELECT ... FROM balance_snapshots ... ORDER BY as_of_ts DESC LIMIT 1`
    for the account and the asset; `as_of_ts` names the selected text. -/
def IsLatest (l : List SnapshotRow) (accountId asset : String) : Option SnapshotRow → Prop
  | none => ∀ row ∈ l, ¬ row.Matches accountId asset
  | some row => row ∈ l ∧ row.Matches accountId asset ∧
      ∀ row' ∈ l, row'.Matches accountId asset → toString row'.asOfTs ≤ toString row.asOfTs

instance (l : List SnapshotRow) (accountId asset : String) :
    (found : Option SnapshotRow) → Decidable (IsLatest l accountId asset found)
  | none => inferInstanceAs (Decidable (∀ row ∈ l, ¬ row.Matches accountId asset))
  | some row => inferInstanceAs (Decidable (row ∈ l ∧ row.Matches accountId asset ∧
      ∀ row' ∈ l, row'.Matches accountId asset → toString row'.asOfTs ≤ toString row.asOfTs))

/-- The first of the rows with the last of these texts. -/
def latestOf (l : List SnapshotRow) (accountId asset : String) : Option SnapshotRow :=
  (l.filter fun row => decide (row.Matches accountId asset)).argmax fun row => toString row.asOfTs

theorem latestOf_isLatest (l : List SnapshotRow) (accountId asset : String) :
    IsLatest l accountId asset (latestOf l accountId asset) := by
  cases hrow : latestOf l accountId asset with
  | none =>
    have hnil := List.argmax_eq_none.mp hrow
    exact fun row hin hmatch => List.filter_eq_nil_iff.mp hnil row hin (decide_eq_true hmatch)
  | some row =>
    obtain ⟨hin, hmatch⟩ := List.mem_filter.mp (List.argmax_mem hrow)
    refine ⟨hin, of_decide_eq_true hmatch, fun row' hin' hmatch' => ?_⟩
    exact List.le_of_mem_argmax (f := fun row : SnapshotRow => toString row.asOfTs)
      (List.mem_filter.mpr ⟨hin', decide_eq_true hmatch'⟩) hrow

/-- `Store::latest_snapshot` with a pool, on the results of its two queries. -/
def latestSnapshotDb (row : Except String (Option SnapshotRow))
    (lastSeq : String → Except String (Option Nat)) : Option BalanceSnapshot :=
  match row with
  | .error _ => none
  | .ok none => none
  | .ok (some row) =>
    match lastSeq row.lastEntryId with
    | .error _ => none
    | .ok found => some
        { accountId := row.accountId
          asset := row.asset
          balance := row.balance
          asOfTs := toString row.asOfTs
          lastEntryId := row.lastEntryId
          lastSequence := found.getD 0 }

/-- The number is in the range of a `bigint`. -/
def IsBigint (n : Int) : Prop := -2 ^ 63 ≤ n ∧ n < 2 ^ 63

instance : DecidablePred IsBigint := fun n =>
  inferInstanceAs (Decidable (-2 ^ 63 ≤ n ∧ n < 2 ^ 63))

/-- `::bigint`. -/
def bigint (n : Int) : Except String Int :=
  if IsBigint n then .ok n else .error "bigint out of range"

/-- `SUM(CASE direction WHEN 'DEBIT' THEN amount ELSE -amount END)` over the rows of one account
    that are numbered after `n`. -/
def sumAfter (l : List EntryRow) (accountId asset : String) (n : Nat) : Int :=
  sumSigned (l.filter fun e => decide (n < e.sequenceNumber)) accountId asset

/-- `Store::balance_via_snapshot` with a pool, on the results of its queries. -/
def balanceViaSnapshotDb (found : Except String (Option String)) (snap : Option BalanceSnapshot)
    (delta : Nat → Except String Int) (sum : Except String Int) : Option Int :=
  match found with
  | .error _ => none
  | .ok none => none
  | .ok (some _) =>
    match snap with
    | some s =>
      match delta s.lastSequence with
      | .error _ => none
      | .ok delta => some (s.balance + delta)
    | none => balanceFromDb sum

/-! ## 2. The database -/

/-- The tables of the ledger and the table `balance_snapshots`. -/
structure Database where
  tables : Tables
  snapshots : List SnapshotRow

def Database.empty : Database := ⟨.empty, []⟩

/-- What a call of `create_account` leaves; the store has `inner` in memory. -/
def Database.create (d : Database) (indexed : String → Bool) (call : AccountCall)
    (inner : LedgerState) : Database :=
  { d with tables := { d.tables with
      accounts := (createPool indexed call ⟨d.tables.accounts, [], inner⟩).2.table } }

section Reads

variable (d : Database) (accountId asset : String)

/-- What the look-up of the account answers. -/
def Database.found : Except String (Option String) :=
  .ok ((rowAt AccountRow.accountId d.tables.accounts accountId).map (·.accountId))

/-- `balance` on the database. -/
def Database.balance : Option Int :=
  balanceDb (d.found accountId) (.ok (sumSigned d.tables.entries accountId asset))

/-- `balance_via_snapshot` on the database, when `row` is the latest snapshot; no query fails but
    the cast. -/
def Database.viaSnapshot (row : Option SnapshotRow) : Option Int :=
  balanceViaSnapshotDb (d.found accountId)
    (latestSnapshotDb (.ok row) fun id =>
      .ok ((rowAt EntryRow.entryId d.tables.entries id).map (·.sequenceNumber)))
    (fun n => bigint (sumAfter d.tables.entries accountId asset n))
    (.ok (sumSigned d.tables.entries accountId asset))

end Reads

section Calls

variable (digest : ByteArray → String) (salt : String)

/-- **A call that is made alone**, with no query failing. -/
inductive DatabaseStep (d : Database) : Database → Prop where
  | createAccount (indexed : String → Bool) (call : AccountCall) (inner : LedgerState) :
      DatabaseStep d (d.create indexed call inner)
  | post (call : PoolCall) (inner : Nat → LedgerState)
      (r : Except PostError (PostingResponse × Bool)) (w : World)
      (ran : Ran (ExecIf True id 0) (postPool digest salt call.sup call.sink call.req)
        (.start d.tables inner) r w) :
      DatabaseStep d { d with tables := w.db }
  | writeSnapshots (sup : Supply) (cache snaps : List BalanceSnapshot) (s : Summaries)
      (ran : Ran (SummaryExec (fun _ => False) d.tables 0) (writeSnapshotsPool sup)
        (.start d.snapshots cache) snaps s) :
      DatabaseStep d { d with snapshots := s.table }

/-- The database after calls made one after another, from the empty one on. -/
def Reached (d : Database) : Prop := Relation.ReflTransGen (DatabaseStep digest salt) .empty d

end Calls

/-! ## 3. Rows of a table that grows -/

section Rows

variable {l m : List EntryRow} {accountId asset : String} {n : Nat}

/-- The rows up to a number and those after it are all rows. -/
theorem sumUpTo_sumAfter (l : List EntryRow) (accountId : String) {asset : String} (n : Nat)
    (hasset : asset ≠ "") : sumUpTo l accountId asset n + sumAfter l accountId asset n =
      sumSigned l accountId asset := by
  have hafter : ofPair (l.filter fun e => decide (n < e.sequenceNumber)) accountId asset =
      (ofPair l accountId asset).filter fun e => ! decide (e.sequenceNumber ≤ n) := by
    unfold ofPair
    rw [List.filter_filter, List.filter_filter]
    refine List.filter_congr fun e _ => ?_
    rw [Bool.and_comm, ← decide_not, decide_eq_decide.mpr not_le]
  have hsplit := (List.filter_append_perm (fun e => decide (e.sequenceNumber ≤ n))
    (ofPair l accountId asset)).map (·.signed)
  rw [List.map_append] at hsplit
  unfold sumAfter
  rw [sumSigned_named _ _ hasset, sumSigned_named _ _ hasset, hafter, ← hsplit.sum_eq,
    List.sum_append]
  rfl

/-- Rows with later numbers do not change what a row holds. -/
theorem RowRight.append {row : SnapshotRow} (h : RowRight l row)
    (hinc : (l ++ m).Pairwise fun a b => a.sequenceNumber < b.sequenceNumber) :
    RowRight (l ++ m) row := by
  obtain ⟨e, he, hid, hbalance⟩ := h
  have hnone : (ofPair m row.accountId row.asset).filter
      (fun e' => decide (e'.sequenceNumber ≤ e.sequenceNumber)) = [] := by
    refine List.filter_eq_nil_iff.mpr fun e' he' => ?_
    have hlater := (List.pairwise_append.mp hinc).2.2 e he e' (mem_ofPair.mp he').1
    simp only [decide_eq_true_eq]
    omega
  have hzero : sumUpTo m row.accountId row.asset e.sequenceNumber = 0 := by
    unfold sumUpTo
    rw [hnone]
    rfl
  refine ⟨e, List.mem_append_left _ he, hid, ?_⟩
  rw [sumUpTo_append, hzero, add_zero]
  exact hbalance

end Rows

/-! ## 4. What holds of the database -/

/-- The entries are numbered upwards, have ids of their own and assets with names, and every
    snapshot row holds the balance of its pair up to its last entry. -/
structure Database.Sound (d : Database) : Prop where
  increasing : d.tables.entries.Pairwise fun a b => a.sequenceNumber < b.sequenceNumber
  ids : (d.tables.entries.map (·.entryId)).Nodup
  named : ∀ e ∈ d.tables.entries, e.asset ≠ ""
  right : ∀ row ∈ d.snapshots, RowRight d.tables.entries row

section Steps

variable {digest : ByteArray → String} {salt : String} {d d' : Database}

/-- A posting adds rows with later numbers, new ids and named assets, or none. -/
theorem post_sound {call : PoolCall} {inner : Nat → LedgerState}
    {r : Except PostError (PostingResponse × Bool)} {w : World} (h : d.Sound)
    (ran : Ran (ExecIf True id 0) (postPool digest salt call.sup call.sink call.req)
      (.start d.tables inner) r w) : Database.Sound { d with tables := w.db } := by
  have hseq : Sequential digest salt (fun _ => call) True id d.tables inner [r] w :=
    .post .start ran
  obtain ⟨threads, hinterleaved, _⟩ := hseq.interleaved
  have hkeys := interleaved_entryKeys h.ids hinterleaved
  have hnamed := interleaved_assets h.named hinterleaved
  have hincreasing : ∃ m, w.db.entries = d.tables.entries ++ m ∧
      (d.tables.entries ++ m).Pairwise fun a b => a.sequenceNumber < b.sequenceNumber := by
    obtain ⟨hbase, _, hlog⟩ := (postPool_outcome rfl ran).log
    unfold World.db
    rw [hbase, tablesAfter_entries]
    refine ⟨_, rfl, ?_⟩
    rcases hlog with hlog | ⟨parsed, rd, _, hlog⟩
    · rw [hlog]
      simpa [World.start] using h.increasing
    · have hbooked := callCommit_booked digest salt call 0 (.start d.tables inner) parsed rd
      rw [hlog]
      simpa [World.start] using booked_increasing h.increasing hbooked
  obtain ⟨m, hm, hinc⟩ := hincreasing
  refine ⟨hm ▸ hinc, hkeys.committed, hnamed, fun row hrow => ?_⟩
  show RowRight w.db.entries row
  rw [hm]
  exact (h.right row hrow).append hinc

/-- A row of the table was there before the call, or the call has written it. -/
theorem table_written {fails : SummaryStmt → Prop} {t : Tables} {α : Type}
    {p : Script SummaryStmt SummaryReply α} {table : List SnapshotRow}
    {cache : List BalanceSnapshot} {a : α} {s : Summaries}
    (ran : Ran (SummaryExec fails t 0) p (.start table cache) a s) :
    ∀ row ∈ s.table, row ∈ table ∨ ∃ w ∈ s.written, w.row = row := by
  refine ran.keeps (I := fun s => ∀ row ∈ s.table, row ∈ table ∨ ∃ w ∈ s.written, w.row = row)
    (fun o s r s' he hs => ?_) fun row hrow => Or.inl hrow
  cases o with
  | selectCustodial => rw [he.1]; exact hs
  | selectSum accountId asset => rw [he.1]; exact hs
  | selectPairs => rw [he.1]; exact hs
  | selectLast accountId asset => rw [he.1]; exact hs
  | insertSnapshot new =>
    rcases he.2 with rfl | ⟨_, rfl⟩
    · unfold Summaries.insert
      split
      · exact hs
      · intro row hrow
        rcases List.mem_append.mp hrow with hin | hin
        · rcases hs row hin with hold | ⟨w, hw, heq⟩
          · exact Or.inl hold
          · exact Or.inr ⟨w, List.mem_append_left _ hw, heq⟩
        · rw [List.mem_singleton.mp hin]
          exact Or.inr ⟨_, List.mem_append_right _ (List.mem_singleton_self _), rfl⟩
    · exact hs
  | cacheSnapshots snaps =>
    rw [show s' = _ from he]
    exact hs

theorem writeSnapshots_sound {sup : Supply} {cache snaps : List BalanceSnapshot} {s : Summaries}
    (h : d.Sound) (ran : Ran (SummaryExec (fun _ => False) d.tables 0) (writeSnapshotsPool sup)
      (.start d.snapshots cache) snaps s) : Database.Sound { d with snapshots := s.table } := by
  refine ⟨h.increasing, h.ids, h.named, fun row hrow => ?_⟩
  rcases table_written ran row hrow with hold | ⟨w, hw, rfl⟩
  · exact h.right row hold
  rcases writeSnapshots_ran ran with ⟨hfail, _⟩ | ⟨pairs, _, hpairs, htaken, hwritten⟩
  · exact absurd hfail id
  obtain ⟨snap, hsnap, hw⟩ := hwritten w hw
  obtain ⟨p, hp, hpair⟩ := Runs.forall₂_mem_right htaken hsnap
  obtain ⟨e, he, rfl⟩ := (hpairs.2 p).mp hp
  rw [hw]
  exact hpair.right (fun hfail => hfail.elim id id) ⟨e, he, rfl⟩ (h.named e he)

theorem step_sound (hs : DatabaseStep digest salt d d') (h : d.Sound) : d'.Sound := by
  cases hs with
  | createAccount indexed call inner => exact ⟨h.increasing, h.ids, h.named, h.right⟩
  | post call inner r w ran => exact post_sound h ran
  | writeSnapshots sup cache snaps s ran => exact writeSnapshots_sound h ran

/-- **After every run the snapshots are right.** -/
theorem reached_sound (h : Reached digest salt d) : d.Sound := by
  induction h with
  | refl =>
    exact ⟨.nil, List.nodup_nil, fun e he => absurd he List.not_mem_nil,
      fun row hrow => absurd hrow List.not_mem_nil⟩
  | tail _ hs ih => exact step_sound hs ih

end Steps

/-! ## 5. When the balance is the balance -/

section Balance

variable {d : Database} {accountId asset : String}

theorem found_known (haccount : d.tables.HasAccount accountId) :
    d.found accountId = .ok (some accountId) := by
  obtain ⟨row, hrow, hid⟩ := haccount
  cases hfound : rowAt AccountRow.accountId d.tables.accounts accountId with
  | none => exact absurd hid (rowAt_eq_none.mp hfound row hrow)
  | some found =>
    unfold Database.found
    rw [hfound, Option.map_some, (rowAt_mem hfound).2]

/-- The balance is the sum of all entries. -/
theorem balance_known (haccount : d.tables.HasAccount accountId) :
    d.balance accountId asset = some (sumSigned d.tables.entries accountId asset) := by
  unfold Database.balance
  rw [found_known haccount]
  rfl

/-- **Through a right row the balance is the sum of all entries, if the cast goes through**: what is
    cast is what the balance has moved by since the row was written. -/
theorem viaSnapshot_row (h : d.Sound) (haccount : d.tables.HasAccount accountId)
    (hasset : asset ≠ "") {row : SnapshotRow} (hrow : row ∈ d.snapshots)
    (hmatch : row.Matches accountId asset) :
    d.viaSnapshot accountId asset (some row) =
      if IsBigint (sumSigned d.tables.entries accountId asset - row.balance) then
        some (sumSigned d.tables.entries accountId asset) else none := by
  obtain ⟨e, he, hid, hbalance⟩ := h.right row hrow
  obtain ⟨haccountId, hnamed⟩ := hmatch
  rw [haccountId, hnamed.resolve_left hasset] at hbalance
  have hlast : rowAt EntryRow.entryId d.tables.entries row.lastEntryId = some e :=
    hid ▸ rowAt_of_mem h.ids he
  have hsplit := sumUpTo_sumAfter d.tables.entries accountId e.sequenceNumber hasset
  have hdelta : sumSigned d.tables.entries accountId asset - row.balance =
      sumAfter d.tables.entries accountId asset e.sequenceNumber := by omega
  unfold Database.viaSnapshot latestSnapshotDb balanceViaSnapshotDb
  simp only [found_known haccount, hlast, Option.map_some, Option.getD_some, hdelta]
  unfold bigint
  by_cases hfits : IsBigint (sumAfter d.tables.entries accountId asset e.sequenceNumber)
  · simp only [hfits, if_true, Option.some.injEq]
    omega
  · simp only [hfits, if_false]

/-- **When a balance is read through a snapshot**, in every database that calls of `create_account`,
    `post` and `write_snapshots` leave, for every account there is and every asset with a name: the
    call answers what `balance` answers, the sum of all entries, if and only if the account has no
    snapshot in the asset or its balance has moved since the latest one by a number in the range of
    a `bigint`. -/
theorem via_snapshot_iff (digest : ByteArray → String) (salt : String) (d : Database)
    (h : Reached digest salt d) (accountId asset : String)
    (haccount : d.tables.HasAccount accountId) (hasset : asset ≠ "") (row : Option SnapshotRow)
    (hrow : IsLatest d.snapshots accountId asset row) :
    (d.viaSnapshot accountId asset row = d.balance accountId asset ∧
      d.balance accountId asset = some (sumSigned d.tables.entries accountId asset)) ↔
    ∀ snap ∈ row, IsBigint (sumSigned d.tables.entries accountId asset - snap.balance) := by
  have hbalance : d.balance accountId asset =
      some (sumSigned d.tables.entries accountId asset) := balance_known haccount
  rw [hbalance]
  cases row with
  | none =>
    refine iff_of_true ⟨?_, rfl⟩ fun snap hsnap => by cases hsnap
    unfold Database.viaSnapshot
    rw [found_known haccount]
    rfl
  | some snap =>
    rw [viaSnapshot_row (reached_sound h) haccount hasset hrow.1 hrow.2.1]
    simp only [Option.mem_def, Option.some.injEq, forall_eq', and_true]
    by_cases hfits : IsBigint (sumSigned d.tables.entries accountId asset - snap.balance)
    · simp only [hfits, if_true]
    · simp only [hfits, if_false, reduceCtorEq]

end Balance

/-! ## 6. Millions of postings after a snapshot -/

def openUc : AccountCall :=
  (sampleSupply, ⟨some "uc", "user_custodial", "BOTH", "user_custodial-uc", none⟩)

def openOp : AccountCall :=
  (sampleSupply, ⟨some "op", "operational_fiat", "FIAT", "operational_fiat-op", none⟩)

def openedDatabase : Database :=
  (Database.empty.create (fun _ => true) openUc .new).create (fun _ => true) openOp .new

theorem openedDatabase_tables : openedDatabase.tables = sampleTables := by
  have hsecs : secs (toString 1700000000) = 1700000000 := secs_toString (by decide)
  have haccounts : openedDatabase.tables.accounts =
      [ ⟨"uc", "user_custodial", "BOTH", "user_custodial-uc", none, "ACTIVE",
          secs (toString 1700000000)⟩,
        ⟨"op", "operational_fiat", "FIAT", "operational_fiat-op", none, "ACTIVE",
          secs (toString 1700000000)⟩ ] := rfl
  rw [hsecs] at haccounts
  show { Tables.empty with accounts := openedDatabase.tables.accounts } = sampleTables
  rw [haccounts]
  rfl

/-- The posting number `n` of the largest amount, with identifiers of its own. -/
def largeCall (n : Nat) : PoolCall where
  sup := { sampleSupply with uuid := fun k => toString (3 * n + k) }
  sink := false
  req := { sampleRequest with
    postingId := toString n
    entries := [⟨"uc", "DEBIT", maxAmount, "USD"⟩, ⟨"op", "CREDIT", maxAmount, "USD"⟩] }

def largeParsed : List ParsedEntry :=
  [⟨"uc", .debit, maxAmount, "USD"⟩, ⟨"op", .credit, maxAmount, "USD"⟩]

theorem largeCall_valid (n : Nat) :
    validateRequest (largeCall n).sup (largeCall n).req = .ok largeParsed := by
  have hfirst : validateRequest (largeCall 0).sup (largeCall 0).req = .ok largeParsed := by
    decide +kernel
  exact hfirst

/-- The first `n` of these postings are booked. -/
structure Piled (n : Nat) (d : Database) : Prop where
  accounts : d.tables.accounts = sampleTables.accounts
  postings : ∀ p ∈ d.tables.postings, ∃ m < n, p.postingId = toString m
  entries : ∀ e ∈ d.tables.entries, ∃ m < 3 * n, e.entryId = toString m
  sum : sumSigned d.tables.entries "uc" "USD" = n * maxAmount

theorem Piled.fresh {n : Nat} {d : Database} (h : Piled n d) :
    FreshIds d.tables (largeCall n).sup 2 where
  unused k hk := by
    rintro ⟨e, he, hid⟩
    obtain ⟨m, hm, hme⟩ := h.entries e he
    have hsame : m = 3 * n + k := Nat.repr_inj.mp (hme.symm.trans hid)
    omega
  distinct := by
    refine (List.nodup_map_iff_inj_on List.nodup_range).mpr fun a _ b _ hab => ?_
    have hsame : 3 * n + a = 3 * n + b := Nat.repr_inj.mp hab
    omega

/-- What a call that posts the next of the postings commits. -/
theorem Piled.commits {n : Nat} {d : Database} (h : Piled n d)
    {r : Except PostError (PostingResponse × Bool)} {w : World}
    (ran : Ran (ExecIf True id 0) (postPool plainDigest sampleSalt (largeCall n).sup
      (largeCall n).sink (largeCall n).req) (.start d.tables fun _ => .new) r w) :
    ∃ t m g, w.db = d.tables ++ t ∧ t.accounts = [] ∧
      Booked plainDigest sampleSalt (largeCall n) largeParsed m g t := by
  have hchecks : checkRows d.tables largeParsed = .ok () := by
    rw [checkRows_congr h.accounts]
    decide +kernel
  have hdb : World.db (.start d.tables fun _ => .new) = d.tables := rfl
  cases postPool_outcome rfl ran with
  | refused e why =>
    rcases why trivial with hinvalid | ⟨parsed, hvalid, _, hrefused⟩
    · rw [largeCall_valid] at hinvalid
      cases hinvalid
    · rw [largeCall_valid] at hvalid
      cases hvalid
      rw [hdb, hchecks] at hrefused
      cases hrefused
  | abandoned e rd dirty => exact absurd trivial dirty
  | replayed parsed row entries valid found ordered =>
    obtain ⟨m, hm, hid⟩ := h.postings row (List.mem_of_find?_eq_some found)
    have hrow := List.find?_some found
    rw [beq_iff_eq, hid] at hrow
    have hsame : m = n := Nat.repr_inj.mp hrow
    omega
  | unacknowledged e parsed rd dirty fresh => exact absurd trivial dirty
  | posted parsed rd fresh =>
    have hvalid := fresh.valid
    rw [largeCall_valid] at hvalid
    cases hvalid
    exact ⟨_, _, _, rfl, rfl, callCommit_booked plainDigest sampleSalt (largeCall n) 0
      (.start d.tables fun _ => .new) largeParsed rd⟩

/-- The rows of one of the postings. -/
theorem largeCall_rows {n m : Nat} {g : String} {t : Tables}
    (hb : Booked plainDigest sampleSalt (largeCall n) largeParsed m g t) :
    t.entries.map (·.entryId) = [toString (3 * n), toString (3 * n + 1)] ∧
      sumSigned t.entries "uc" "USD" = maxAmount := by
  have hspec : LoopSpec plainDigest sampleSalt ((largeCall n).sup.nowIso 0)
      (largeCall n).req.postingId m g (largeCall n).sup largeParsed
      (memoryLoop plainDigest sampleSalt (largeCall n) m g largeParsed) := memoryLoop_spec
  have hids := hspec.entryIds.symm.trans hspec.fresh
  have hmade := hspec.made
  rw [hb.entries]
  generalize (memoryLoop plainDigest sampleSalt (largeCall n) m g largeParsed).createdEntries =
    created at hids hmade ⊢
  constructor
  · rw [List.map_map]
    exact hids
  · obtain ⟨uc, _, huc, hrest, rfl⟩ := List.forall₂_cons_left_iff.mp hmade
    obtain ⟨op, _, hop, hnil, rfl⟩ := List.forall₂_cons_left_iff.mp hrest
    obtain rfl := List.forall₂_nil_left_iff.mp hnil
    obtain ⟨_, _, _, rfl⟩ := huc
    obtain ⟨_, _, _, rfl⟩ := hop
    rfl

/-- The next of the postings is booked. -/
theorem Piled.posted {n : Nat} {d : Database} (h : Piled n d)
    {r : Except PostError (PostingResponse × Bool)} {w : World}
    (ran : Ran (ExecIf True id 0) (postPool plainDigest sampleSalt (largeCall n).sup
      (largeCall n).sink (largeCall n).req) (.start d.tables fun _ => .new) r w) :
    Piled (n + 1) { d with tables := w.db } := by
  obtain ⟨t, m, g, hdb, haccounts, hbooked⟩ := h.commits ran
  obtain ⟨hids, hsum⟩ := largeCall_rows hbooked
  rw [hdb]
  refine ⟨?_, fun p hp => ?_, fun e he => ?_, ?_⟩
  · show d.tables.accounts ++ t.accounts = sampleTables.accounts
    rw [haccounts, List.append_nil, h.accounts]
  · rcases List.mem_append.mp hp with hp | hp
    · obtain ⟨k, hk, hid⟩ := h.postings p hp
      exact ⟨k, by omega, hid⟩
    · rw [hbooked.postings, List.mem_singleton] at hp
      exact ⟨n, Nat.lt_succ_self n, hp ▸ rfl⟩
  · rcases List.mem_append.mp he with he | he
    · obtain ⟨k, hk, hid⟩ := h.entries e he
      exact ⟨k, by omega, hid⟩
    · have hid := List.mem_map_of_mem (f := EntryRow.entryId) he
      rw [hids] at hid
      rcases List.mem_pair.mp hid with hid | hid
      · exact ⟨3 * n, by omega, hid⟩
      · exact ⟨3 * n + 1, by omega, hid⟩
  · show sumSigned (d.tables.entries ++ t.entries) "uc" "USD" = (n + 1 : Nat) * maxAmount
    rw [sumSigned_append, h.sum, hsum, Nat.cast_add, add_mul, Nat.cast_one, one_mul]

/-- As many of them as one likes can be booked. -/
theorem Piled.more {n : Nat} {d : Database} (hr : Reached plainDigest sampleSalt d)
    (h : Piled n d) (k : Nat) : ∃ d', Reached plainDigest sampleSalt d' ∧ Piled (n + k) d' ∧
      d'.snapshots = d.snapshots := by
  induction k with
  | zero => exact ⟨d, hr, h, rfl⟩
  | succ k ih =>
    obtain ⟨d', hr', h', hsnapshots⟩ := ih
    have hreturns : Returns (ExecIf True id 0) (postPool plainDigest sampleSalt
        (largeCall (n + k)).sup (largeCall (n + k)).sink (largeCall (n + k)).req)
        (.start d'.tables fun _ => .new) := postPool_returns rfl h'.fresh
    obtain ⟨r, w, ran⟩ := hreturns
    exact ⟨_, hr'.tail (.post _ _ r w ran), h'.posted ran, hsnapshots⟩

/-- The first of the postings, on the two accounts. -/
def firstPosted : Except PostError (PostingResponse × Bool) × World :=
  (runAlone (exec id 0) (postPool plainDigest sampleSalt (largeCall 0).sup (largeCall 0).sink
    (largeCall 0).req) (.start openedDatabase.tables fun _ => .new)).get (by decide +kernel)

/-- The snapshots after it. -/
def firstSnapshots : List BalanceSnapshot × Summaries :=
  (runAlone (summaryExec (fun _ => false) firstPosted.2.db 0) (writeSnapshotsPool sampleSupply)
    (.start [] [])).get (by decide +kernel)

/-- One posting and its snapshots. -/
def snapshotDatabase : Database := ⟨firstPosted.2.db, firstSnapshots.2.table⟩

theorem openedDatabase_piled : Piled 0 openedDatabase := by
  refine ⟨?_, ?_, ?_, ?_⟩ <;> rw [openedDatabase_tables]
  · exact fun p hp => absurd hp List.not_mem_nil
  · exact fun e he => absurd he List.not_mem_nil
  · rfl

theorem firstPosted_ran : Ran (ExecIf True id 0) (postPool plainDigest sampleSalt
    (largeCall 0).sup (largeCall 0).sink (largeCall 0).req)
    (.start openedDatabase.tables fun _ => .new) firstPosted.1 firstPosted.2 :=
  ran_runAlone (exec_clean True id 0) _ _ _

theorem firstSnapshots_ran : Ran (SummaryExec (fun _ => False) firstPosted.2.db 0)
    (writeSnapshotsPool sampleSupply) (.start [] []) firstSnapshots.1 firstSnapshots.2 := by
  refine (ran_runAlone summary_exec_sound _ _ (by decide +kernel)).imp fun o s r s' he => ?_
  simpa only [Bool.false_eq_true] using he

theorem snapshotDatabase_piled : Piled 1 snapshotDatabase :=
  have h := openedDatabase_piled.posted firstPosted_ran
  ⟨h.accounts, h.postings, h.entries, h.sum⟩

theorem snapshotDatabase_reached : Reached plainDigest sampleSalt snapshotDatabase := by
  have hopened : Reached plainDigest sampleSalt openedDatabase :=
    .tail (.tail .refl (.createAccount (fun _ => true) openUc .new))
      (.createAccount (fun _ => true) openOp .new)
  exact (hopened.tail (.post _ _ _ _ firstPosted_ran)).tail
    (.writeSnapshots sampleSupply [] _ _ firstSnapshots_ran)

/-- The snapshot holds the amount of the one posting. -/
theorem snapshotDatabase_row : (∃ row ∈ snapshotDatabase.snapshots, row.Matches "uc" "USD") ∧
    ∀ row ∈ snapshotDatabase.snapshots, row.Matches "uc" "USD" → row.balance = maxAmount := by
  decide +kernel

theorem Piled.hasAccount {n : Nat} {d : Database} (h : Piled n d) : d.tables.HasAccount "uc" := by
  unfold Tables.HasAccount
  rw [h.accounts]
  decide

/-- Right after the snapshot is written. -/
theorem via_snapshot_iff_sample :
    (snapshotDatabase.viaSnapshot "uc" "USD" (latestOf snapshotDatabase.snapshots "uc" "USD") =
        snapshotDatabase.balance "uc" "USD" ∧
      snapshotDatabase.balance "uc" "USD" =
        some (sumSigned snapshotDatabase.tables.entries "uc" "USD")) ↔
    ∀ snap ∈ latestOf snapshotDatabase.snapshots "uc" "USD",
      IsBigint (sumSigned snapshotDatabase.tables.entries "uc" "USD" - snap.balance) :=
  via_snapshot_iff plainDigest sampleSalt snapshotDatabase snapshotDatabase_reached "uc" "USD"
    snapshotDatabase_piled.hasAccount (by decide) _ (latestOf_isLatest _ _ _)

/-- **A balance that is lost**: one posting, its snapshots, and 9223373 postings more, each of the
    largest amount. The account has moved by 9223373000000000000 since its snapshot, no `bigint`
    holds that, and the balance read through the snapshot is none. -/
theorem via_snapshot_lost :
    ¬ ∀ (digest : ByteArray → String) (salt : String) (d : Database), Reached digest salt d →
      ∀ accountId asset : String, d.tables.HasAccount accountId → asset ≠ "" →
      ∀ row, IsLatest d.snapshots accountId asset row →
        d.viaSnapshot accountId asset row = d.balance accountId asset ∧
          d.balance accountId asset = some (sumSigned d.tables.entries accountId asset) := by
  intro hall
  obtain ⟨d, hr, hpiled, hsnapshots⟩ :=
    snapshotDatabase_piled.more snapshotDatabase_reached 9223373
  have haccount := hpiled.hasAccount
  have hlatest := latestOf_isLatest d.snapshots "uc" "USD"
  have hmoved := (via_snapshot_iff plainDigest sampleSalt d hr "uc" "USD" haccount (by decide) _
    hlatest).mp (hall plainDigest sampleSalt d hr "uc" "USD" haccount (by decide) _ hlatest)
  obtain ⟨⟨row, hrow, hmatch⟩, hbalance⟩ := snapshotDatabase_row
  rw [← hsnapshots] at hrow hbalance
  cases hfound : latestOf d.snapshots "uc" "USD" with
  | none =>
    rw [hfound] at hlatest
    exact hlatest row hrow hmatch
  | some snap =>
    rw [hfound] at hlatest hmoved
    have hsnap := hbalance snap hlatest.1 hlatest.2.1
    have hfits := hmoved snap rfl
    rw [hpiled.sum, hsnap] at hfits
    exact absurd hfits (by decide)

end LedgerAccounting
