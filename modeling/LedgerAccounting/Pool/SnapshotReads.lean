/-
  File:      LedgerAccounting/Pool/SnapshotReads.lean
  Subject:   `write_snapshots` with a pool beside concurrent `post` calls.

  The balance of a pair and its last entry are read by two queries. What is committed between them,
  and what is committed later under a number taken earlier, lies up to the last entry of the row and
  is not in its balance.

  * `snapshotLoop_spec`: what every written row holds, and from which moments.
  * `snapshot_rows_right_iff`: when the written rows are right.
-/
import LedgerAccounting.Pool.Beside
import LedgerAccounting.Pool.SnapshotFailures

namespace LedgerAccounting

open Script

/-! ## 1. What is known of a row -/

/-- The largest sequence number of the account in the asset, when `n` transactions were
    committed. -/
def World.lastNumber (w : World) (n : Nat) (accountId asset : String) : Nat :=
  maxSequence (ofPair (w.dbAt n).entries accountId asset)

/-- The balance is that of the pair at the moment of the read. -/
structure SumKnown (w : World) (read : PairRead) (balance : Int) : Prop where
  moment : read.committed ≤ w.log.length
  balance : balance = sumSigned (w.dbAt read.committed).entries read.accountId read.asset

/-- The id is that of an entry with the largest number of the pair at the moment of the read. -/
structure LastKnown (w : World) (read : PairRead) (entryId : String) : Prop where
  moment : read.committed ≤ w.log.length
  found : ∃ e ∈ w.db.entries, e.entryId = entryId ∧
    e.sequenceNumber = w.lastNumber read.committed read.accountId read.asset

/-- The row of a pair holds a balance and a last entry that were read in this order. -/
structure Noted (w : World) (row : SnapshotRow) (sum last : PairRead) : Prop where
  named : row.asset ≠ ""
  sumPair : (sum.accountId, sum.asset) = (row.accountId, row.asset)
  lastPair : (last.accountId, last.asset) = (row.accountId, row.asset)
  order : sum.committed ≤ last.committed
  balance : SumKnown w sum row.balance
  entry : LastKnown w last row.lastEntryId

/-- Every pair has an entry. -/
def Listed (w : World) (pairs : List (String × String)) : Prop :=
  ∀ p ∈ pairs, ∃ e ∈ w.db.entries, (e.accountId, e.asset) = p

/-! ### ... and stays so -/

section Stays

variable {b b' : Beside} {read : PairRead}

theorem Onward.mem_entries (h : Onward b b') {e : EntryRow} (he : e ∈ b.posts.state.db.entries) :
    e ∈ b'.posts.state.db.entries := by
  obtain ⟨rest, hrest⟩ := h.log
  unfold World.db at he ⊢
  rw [tablesAfter_entries] at he ⊢
  rw [h.base, ← hrest, List.flatMap_append, ← List.append_assoc]
  exact List.mem_append_left _ he

theorem SumKnown.onward {balance : Int} (h : SumKnown b.posts.state read balance)
    (hon : Onward b b') : SumKnown b'.posts.state read balance := by
  refine ⟨h.moment.trans hon.committed, ?_⟩
  rw [hon.dbAt h.moment]
  exact h.balance

theorem LastKnown.onward {entryId : String} (h : LastKnown b.posts.state read entryId)
    (hon : Onward b b') : LastKnown b'.posts.state read entryId := by
  obtain ⟨e, he, hid, hnumber⟩ := h.found
  refine ⟨h.moment.trans hon.committed, e, hon.mem_entries he, hid, ?_⟩
  rw [World.lastNumber, hon.dbAt h.moment]
  exact hnumber

theorem Noted.onward {row : SnapshotRow} {sum last : PairRead}
    (h : Noted b.posts.state row sum last) (hon : Onward b b') :
    Noted b'.posts.state row sum last :=
  ⟨h.named, h.sumPair, h.lastPair, h.order, h.balance.onward hon, h.entry.onward hon⟩

theorem Listed.onward {pairs : List (String × String)} (h : Listed b.posts.state pairs)
    (hon : Onward b b') : Listed b'.posts.state pairs := by
  intro p hp
  obtain ⟨e, he, hpair⟩ := h p hp
  exact ⟨e, hon.mem_entries he, hpair⟩

end Stays

/-! ## 2. The call among the posts -/

section Calls

variable {digest : ByteArray → String} {salt : String} {calls : Nat → PoolCall}
  {replica : Nat → Nat} {base : Tables} {inner : Nat → LedgerState}

/-- The posts are an interleaving, and what is known of the written rows. -/
structure SnapshotInv (digest : ByteArray → String) (salt : String) (calls : Nat → PoolCall)
    (replica : Nat → Nat) (base : Tables) (inner : Nat → LedgerState) (b : Beside) : Prop where
  posts : Interleaved digest salt calls replica base inner b.posts
  noted : ∀ w ∈ b.own.written, ∃ sum last, w.sum = some sum ∧ w.last = some last ∧
    Noted b.posts.state w.row sum last

theorem goes_snapshotInv {b b' : Beside} (h : Goes replica b b')
    (hI : SnapshotInv digest salt calls replica base inner b) :
    SnapshotInv digest salt calls replica base inner b' := by
  have hon := goes_onward h
  refine ⟨goes_interleaved h hI.posts, fun w hw => ?_⟩
  rw [hon.written] at hw
  obtain ⟨sum, last, hsum, hlast, hnoted⟩ := hI.noted w hw
  exact ⟨sum, last, hsum, hlast, hnoted.onward hon⟩

/-- A script of the call: what it knows before and after, while the written rows stay noted. -/
abbrev SnapshotSpec {α : Type} (digest : ByteArray → String) (salt : String)
    (calls : Nat → PoolCall) (replica : Nat → Nat) (base : Tables) (inner : Nat → LedgerState)
    (P : Beside → Prop) (p : Script SummaryStmt SummaryReply α) (Q : α → Beside → Prop) : Prop :=
  Triple Onward (SnapshotInv digest salt calls replica base inner) BesideExec P p Q

/-- What the call knows between the two reads of a pair. -/
structure SumRead (pairs : List (String × String)) (accountId asset : String) (balance : Int)
    (sum : PairRead) (b : Beside) : Prop where
  listed : Listed b.posts.state ((accountId, asset) :: pairs)
  latest : b.own.sums.getLast? = some sum
  pair : (sum.accountId, sum.asset) = (accountId, asset)
  known : SumKnown b.posts.state sum balance

/-- What the call knows after both reads of a pair. -/
structure BothRead (pairs : List (String × String)) (accountId asset : String) (balance : Int)
    (entryId : String) (sum last : PairRead) (b : Beside) : Prop where
  before : SumRead pairs accountId asset balance sum b
  latest : b.own.lasts.getLast? = some last
  pair : (last.accountId, last.asset) = (accountId, asset)
  order : sum.committed ≤ last.committed
  known : LastKnown b.posts.state last entryId

section Reads

variable {pairs : List (String × String)} {accountId asset : String} {balance : Int}

theorem stable_listed (pairs : List (String × String)) :
    Stable Onward fun b => Listed b.posts.state pairs :=
  fun _ _ h hon => h.onward hon

theorem stable_sumRead (sum : PairRead) :
    Stable Onward (SumRead pairs accountId asset balance sum) :=
  fun _ _ h hon => ⟨h.listed.onward hon, hon.sums ▸ h.latest, h.pair, h.known.onward hon⟩

theorem stable_bothRead (entryId : String) (sum last : PairRead) :
    Stable Onward (BothRead pairs accountId asset balance entryId sum last) :=
  fun b b' h hon => ⟨stable_sumRead sum b b' h.before hon, hon.lasts ▸ h.latest, h.pair, h.order,
    h.known.onward hon⟩

end Reads

/-- The balance of a pair is read. -/
theorem selectSum_spec (pairs : List (String × String)) (accountId asset : String) :
    SnapshotSpec digest salt calls replica base inner
      (fun b => Listed b.posts.state ((accountId, asset) :: pairs))
      (issueSummary (.selectSum accountId asset)) fun r b => ∃ balance sum,
        r = .ok balance ∧ SumRead pairs accountId asset balance sum b := by
  refine query_beside (stable_listed _) (fun b r own h hI he => ?_) fun r b b' h hon => ?_
  · obtain ⟨rfl, hanswer⟩ := he
    obtain ⟨balance, rfl, hsum⟩ := hanswer.ok id
    have hnow : balance = sumSigned (b.posts.state.dbAt b.committed).entries accountId asset := by
      rw [hsum, Beside.committed, dbAt_length]
    exact ⟨⟨hI.posts, hI.noted⟩, balance, ⟨accountId, asset, b.committed⟩, rfl, h,
      List.getLast?_concat, rfl, le_rfl, hnow⟩
  · obtain ⟨balance, sum, hok, hread⟩ := h
    exact ⟨balance, sum, hok, stable_sumRead sum b b' hread hon⟩

/-- The last entry of a pair is read. -/
theorem selectLast_spec (pairs : List (String × String)) (accountId asset : String)
    (balance : Int) (sum : PairRead) :
    SnapshotSpec digest salt calls replica base inner
      (SumRead pairs accountId asset balance sum)
      (issueSummary (.selectLast accountId asset)) fun r b =>
        ∃ last, BothRead pairs accountId asset balance (foundLast r).1 sum last b := by
  refine query_beside (stable_sumRead sum) (fun b r own h hI he => ?_) fun r b b' h hon => ?_
  · obtain ⟨rfl, hanswer⟩ := he
    obtain ⟨found, rfl, hfound⟩ := hanswer.ok id
    obtain ⟨e, he, rfl, hmax⟩ :=
      isLastEntry_booked hfound (h.listed (accountId, asset) List.mem_cons_self)
    refine ⟨⟨hI.posts, hI.noted⟩, ⟨accountId, asset, b.committed⟩,
      ⟨h.listed, h.latest, h.pair, h.known⟩, List.getLast?_concat, rfl, h.known.moment, le_rfl,
      e, (mem_ofPair.mp he).1, rfl, ?_⟩
    rw [World.lastNumber, Beside.committed, dbAt_length]
    exact (maxSequence_eq he hmax).symm
  · obtain ⟨last, hread⟩ := h
    exact ⟨last, stable_bothRead _ sum last b b' hread hon⟩

/-- The row is written and noted, unless its key was taken. -/
theorem insertSnapshot_spec (hbase : ∀ e ∈ base.entries, e.asset ≠ "")
    (pairs : List (String × String)) (row : SnapshotRow) (sum last : PairRead) :
    SnapshotSpec digest salt calls replica base inner
      (BothRead pairs row.accountId row.asset row.balance row.lastEntryId sum last)
      (issueSummary (.insertSnapshot row)) fun _ b => Listed b.posts.state pairs := by
  refine query_beside (stable_bothRead _ sum last) (fun b r own h hI he => ?_)
    fun r => stable_listed pairs
  obtain ⟨_, hown⟩ := he
  obtain rfl : own = b.own.insert row := hown.resolve_right fun hfail => hfail.1
  refine ⟨⟨hI.posts, fun w hw => ?_⟩, fun p hp => h.before.listed p (List.mem_cons_of_mem _ hp)⟩
  unfold Summaries.insert at hw
  split at hw
  · exact hI.noted w hw
  · rcases List.mem_append.mp hw with hw | hw
    · exact hI.noted w hw
    · rw [List.mem_singleton.mp hw]
      obtain ⟨e, he, hpair⟩ := h.before.listed (row.accountId, row.asset) List.mem_cons_self
      have hasset : e.asset = row.asset := congrArg Prod.snd hpair
      have hnamed : row.asset ≠ "" := hasset ▸ interleaved_assets hbase hI.posts e he
      exact ⟨sum, last, h.before.latest, h.latest, hnamed, h.before.pair, h.pair, h.order,
        h.before.known, h.known⟩

/-- **Every row the loop writes is noted**: its balance from one moment, its last entry from that
    moment or a later one. -/
theorem snapshotLoop_spec (hbase : ∀ e ∈ base.entries, e.asset ≠ "") (sup : Supply)
    (pairs : List (String × String)) (snaps : List BalanceSnapshot) :
    SnapshotSpec digest salt calls replica base inner (fun b => Listed b.posts.state pairs)
      (snapshotLoop sup snaps pairs) fun _ _ => True := by
  induction pairs generalizing snaps with
  | nil => exact Triple.ret _ fun _ _ _ _ => trivial
  | cons p pairs ih =>
    obtain ⟨accountId, asset⟩ := p
    refine Triple.bind Onward.refl (selectSum_spec pairs accountId asset) fun r => ?_
    intro b h
    obtain ⟨balance, sum, rfl, hsum⟩ := h
    refine Triple.bind Onward.refl (selectLast_spec pairs accountId asset balance sum)
      (fun r => ?_) b hsum
    intro b' h
    obtain ⟨last, hboth⟩ := h
    exact Triple.bind Onward.refl (insertSnapshot_spec hbase pairs (BalanceSnapshot.row
      { accountId := accountId
        asset := asset
        balance := balance
        asOfTs := sup.nowIso snaps.length
        lastEntryId := (foundLast r).1
        lastSequence := (foundLast r).2 }) sum last) (fun _ => ih _) b' hboth

theorem writeSnapshots_spec (hbase : ∀ e ∈ base.entries, e.asset ≠ "") (sup : Supply) :
    SnapshotSpec digest salt calls replica base inner (fun _ => True) (writeSnapshotsPool sup)
      fun _ _ => True := by
  have htrue : Stable Onward fun _ => True := Stable.const True
  refine Triple.bind Onward.refl
    (M := fun r b => ∃ pairs, r = .ok pairs ∧ Listed b.posts.state pairs)
    (query_beside htrue (fun b r own _ hI he => ?_) fun r b b' h hon => ?_) fun r => ?_
  · obtain ⟨rfl, hanswer⟩ := he
    obtain ⟨pairs, rfl, hpairs⟩ := hanswer.ok id
    exact ⟨hI, pairs, rfl, fun p hp => (hpairs.2 p).mp hp⟩
  · obtain ⟨pairs, hok, hlisted⟩ := h
    exact ⟨pairs, hok, hlisted.onward hon⟩
  · intro b h
    obtain ⟨pairs, rfl, hlisted⟩ := h
    refine Triple.bind Onward.refl (snapshotLoop_spec hbase sup pairs []) (fun snaps => ?_) b
      hlisted
    refine Triple.bind Onward.refl (M := fun _ _ => True)
      (query_beside htrue (fun b r own _ hI he => ?_) fun _ => htrue)
      fun _ => Triple.ret _ fun _ _ _ _ => trivial
    obtain rfl : own = _ := he
    exact ⟨⟨hI.posts, hI.noted⟩, trivial⟩

end Calls

/-! ## 3. When the rows are right -/

/-- What the pair has booked since the balance was read, under numbers up to the largest one when
    the last entry was read. -/
def World.late (w : World) (sum last : PairRead) : Int :=
  sumUpTo ((w.log.drop sum.committed).flatMap (·.tables.entries)) sum.accountId sum.asset
    (w.lastNumber last.committed last.accountId last.asset)

/-- The row falls behind the sum up to its last entry by what was booked late. -/
theorem Noted.sum_late {w : World} {row : SnapshotRow} {sum last : PairRead}
    (h : Noted w row sum last) :
    sumUpTo w.db.entries row.accountId row.asset
        (w.lastNumber last.committed last.accountId last.asset) =
      row.balance + w.late sum last := by
  obtain ⟨hnamed, hsum, hlast, horder, hbalance, _⟩ := h
  obtain ⟨hsumId, hsumAsset⟩ := Prod.mk.inj hsum
  obtain ⟨hlastId, hlastAsset⟩ := Prod.mk.inj hlast
  have hmax : ∀ e ∈ ofPair (w.dbAt sum.committed).entries row.accountId row.asset,
      e.sequenceNumber ≤ w.lastNumber last.committed last.accountId last.asset := by
    intro e he
    rw [World.lastNumber, hlastId, hlastAsset]
    refine le_maxSequence ?_
    rw [dbAt_split w horder, ofPair_append]
    exact List.mem_append_left _ he
  have hsplit := dbAt_split w hbalance.moment
  rw [dbAt_length, List.take_length] at hsplit
  rw [hsplit, sumUpTo_append, sumUpTo_all hmax hnamed, hbalance.balance, World.late, hsumId,
    hsumAsset]

/-- **A row is right if and only if nothing was booked late**, on balance. -/
theorem Noted.right_iff {w : World} {row : SnapshotRow} {sum last : PairRead}
    (h : Noted w row sum last) (hkeys : EntryKeys w) :
    RowRight w.db.entries row ↔ w.late sum last = 0 := by
  have hsum := h.sum_late
  obtain ⟨e, he, hid, hnumber⟩ := h.entry.found
  rw [← hnumber] at hsum
  constructor
  · intro hright
    obtain ⟨e', he', hid', hbalance⟩ := hright
    obtain rfl : e' = e := List.inj_on_of_nodup_map hkeys.committed he' he (hid'.trans hid.symm)
    omega
  · intro hlate
    exact ⟨e, he, hid, by omega⟩

/-- **The rows a call writes beside concurrent posts**, in every interleaving and every later state,
    the call ended or not: they are right if and only if, for each of them, what its pair has booked
    since its balance was read, under numbers up to the largest one when its last entry was read,
    comes to nothing. -/
theorem snapshot_rows_right_iff (digest : ByteArray → String) (salt : String)
    (calls : Nat → PoolCall) (replica : Nat → Nat) (base : Tables) (inner : Nat → LedgerState)
    (hkeys : (base.entries.map (·.entryId)).Nodup) (hnamed : ∀ e ∈ base.entries, e.asset ≠ "")
    (c : Posts) (hc : Interleaved digest salt calls replica base inner c) (sup : Supply)
    (table : List SnapshotRow) (cache : List BalanceSnapshot) (b : Beside)
    (p : Script SummaryStmt SummaryReply (List BalanceSnapshot))
    (hrun : CallReach replica (writeSnapshotsPool sup) c table cache (b, p)) :
    (∀ w ∈ b.own.written, RowRight b.posts.state.db.entries w.row) ↔
    ∀ w ∈ b.own.written, ∀ sum ∈ w.sum, ∀ last ∈ w.last, b.posts.state.late sum last = 0 := by
  have hstart : SnapshotInv digest salt calls replica base inner ⟨c, .start table cache⟩ :=
    ⟨hc, fun w hw => absurd hw List.not_mem_nil⟩
  obtain ⟨hI, _⟩ := amid_sound Onward.refl Onward.trans
    (fun b b' hI hgoes => ⟨goes_onward hgoes, goes_snapshotInv hgoes hI⟩) hstart
    (writeSnapshots_spec hnamed sup _ trivial) hrun
  have hids := interleaved_entryKeys hkeys hI.posts
  refine forall₂_congr fun w hw => ?_
  obtain ⟨sum, last, hsum, hlast, hnoted⟩ := hI.noted w hw
  rw [hnoted.right_iff hids, hsum, hlast]
  simp only [Option.mem_def, Option.some.injEq, forall_eq']

/-! One posting is booked, and a second one is posted beside the call. -/

def laterCall : PoolCall where
  sup := sampleSupply
  sink := false
  req := { sampleRequest with postingId := "bal2" }

/-- Nothing of the second posting has been sent yet. -/
def laterStart : Posts :=
  startCalls sampleDigest sampleSalt (fun _ => laterCall) (World.start bookedTables fun _ => .new)

/-- The list of pairs and the first balance, some statements of the posting, the first last entry
    and the first row, and some more statements. -/
def snapshotBeside (first second : Nat) :
    Beside × Script SummaryStmt SummaryReply (List BalanceSnapshot) :=
  runBeside (writeSnapshotsPool sampleSupply) laterStart
    [none, none, some (List.replicate first 0), none, none, some (List.replicate second 0)]

/-- The posting is committed after both reads, and after the row is written. -/
theorem snapshot_rows_right_iff_sample :
    (snapshotBeside 0 20).1.committed = 1 ∧
    ∀ w ∈ (snapshotBeside 0 20).1.own.written,
      RowRight (snapshotBeside 0 20).1.posts.state.db.entries w.row :=
  ⟨by decide +kernel, (snapshot_rows_right_iff sampleDigest sampleSalt (fun _ => laterCall) id
    bookedTables (fun _ => .new) (by decide) (by decide) laterStart .refl sampleSupply [] []
    (snapshotBeside 0 20).1 (snapshotBeside 0 20).2 (beside_schedule _ _ _)).mpr
    (by decide +kernel)⟩

/-- The posting is committed between both reads: the row holds the balance of 100 USD and the entry
    of the second posting, up to which the balance is 200. -/
theorem committed_between_reads :
    ∃ b p, CallReach id (writeSnapshotsPool sampleSupply) laterStart [] [] (b, p) ∧
      b.committed = 1 ∧ (∃ w ∈ b.own.written, ¬ RowRight b.posts.state.db.entries w.row) ∧
      ∃ row ∈ b.own.table, row.balance = 100 ∧ ¬ RowRight b.posts.state.db.entries row :=
  ⟨_, _, beside_schedule (writeSnapshotsPool sampleSupply) laterStart
    [none, none, some (List.replicate 20 0), none, none], by decide +kernel, by decide +kernel,
    by decide +kernel⟩

end LedgerAccounting
