/-
  File:      LedgerAccounting/Pool/Listings.lean
  Subject:   The listings of a store with a pool (`list_accounts`, `list_postings`), `get_account`
             and `entry_count`, beside the in-memory ones and beside concurrent posts.

  `created_at` behind `ORDER BY` names the text the query selects, not the column of that name, so
  both stores sort by texts: the in-memory one by code points, the database by its collation. The
  entries of a listed posting are read by a query of their own, whose failure leaves the posting
  without entries.

  * `pool_listings_agree`: after calls one after another the two stores list the same, the postings
    as far as the collation orders them by code points.
  * `listing_one_moment`: amid calls that run at the same time a listing is that of the moment it
    was begun.
-/
import LedgerAccounting.Memory.Listings
import LedgerAccounting.Pool.Books

namespace LedgerAccounting

open Keyed Ranking

/-! ## 1. The queries -/

/-- The order of texts that a database has by its collation. -/
structure Collation where
  le : String → String → Bool
  compares : Compares le
  antisymm : ∀ a b, le a b → le b a → a = b

/-- The order by code points, which Rust's strings have. -/
def Collation.codePoints : Collation where
  le a b := decide (a ≤ b)
  compares := compares_le
  antisymm a b := by
    simp only [decide_eq_true_eq]
    exact le_antisymm

/-- The collation orders these texts by code points. -/
def Collation.Bytewise (col : Collation) (texts : List String) : Prop :=
  ∀ a ∈ texts, ∀ b ∈ texts, col.le a b = decide (a ≤ b)

/-- The comparison of `ORDER BY created_at, posting_id`. -/
def PostingRow.createdBefore (col : Collation) : PostingRow → PostingRow → Bool :=
  thenBy (fun a b => col.le (toString a.createdAt) (toString b.createdAt))
    fun a b => col.le a.postingId b.postingId

/-- `rows` answers the query of `list_accounts`, whose order is of no account: the store sorts the
    rows again. -/
def ListsAccounts (t : Tables) (rows : List AccountRow) : Prop := rows.Perm t.accounts

/-- `rows` answers the first query of `list_postings`. -/
def ListsPostings (col : Collation) (t : Tables) (limit : Nat) (rows : List PostingRow) : Prop :=
  ∃ all : List PostingRow, all.Perm t.postings ∧
    (all.Pairwise fun a b => a.createdBefore col b) ∧ rows = all.take (clampLimit limit)

/-! ## 2. The reads -/

/-- `Store::list_accounts` with a pool, on the answer of its query. -/
def listAccountsDb (rows : Except String (List AccountRow)) (typeFilter : Option String) :
    List Account :=
  match rows with
  | .error _ => []
  | .ok rows =>
    ((rows.filter fun a => typeFilter.all (a.typeName == ·)).map (·.record)).mergeSort
      fun a b => createdBefore (a.createdAt, a.accountId) (b.createdAt, b.accountId)

def getAccountDb (row : Except String (Option AccountRow)) : Option Account :=
  match row with
  | .error _ => none
  | .ok found => found.map (·.record)

/-- The entries of a listed posting: none, if they could not be read. -/
def listedEntries (entries : Except String (List EntryRow)) : List EntryRecord :=
  match entries with
  | .error _ => []
  | .ok rows => rows.map (·.record)

/-- `Store::list_postings` with a pool, on the answers of its queries, one for the postings and one
    for the entries of each. -/
def listPostingsDb (postings : Except String (List PostingRow))
    (entries : String → Except String (List EntryRow)) : List PostingRecord :=
  match postings with
  | .error _ => []
  | .ok rows => rows.map fun p => p.record (listedEntries (entries p.postingId))

/-- `Store::entry_count` with a pool. -/
def entryCountDb (count : Except String Nat) : Nat :=
  match count with
  | .error _ => 0
  | .ok n => n

def entryCount (state : LedgerState) : Nat := state.entries.length

/-! ## 3. What both stores list -/

section Agree

variable {t : Tables} {s : LedgerState}

theorem postingRows_compares (col : Collation) : Compares (PostingRow.createdBefore col) :=
  (col.compares.comap fun p : PostingRow => toString p.createdAt).thenBy
    (col.compares.comap fun p : PostingRow => p.postingId)

/-- Rows with distinct ids do not tie. -/
theorem postingRows_untied (col : Collation) (hn : (t.postings.map (·.postingId)).Nodup) :
    Untied (PostingRow.createdBefore col) t.postings := by
  refine untied_of_key hn fun a b hab hba => ?_
  obtain ⟨hle, htie⟩ := thenBy_iff.mp hab
  obtain ⟨hge, htie'⟩ := thenBy_iff.mp hba
  exact col.antisymm _ _ (htie hge) (htie' hle)

/-- The rows listed are the cut of the rows of the table. -/
theorem listsPostings_eq {col : Collation} (hn : (t.postings.map (·.postingId)).Nodup)
    {limit : Nat} {rows : List PostingRow} (h : ListsPostings col t limit rows) :
    rows = (t.postings.mergeSort (PostingRow.createdBefore col)).take (clampLimit limit) := by
  obtain ⟨all, hperm, hsorted, hrows⟩ := h
  rw [hrows, ← sort_unique (postingRows_compares col) (postingRows_untied col hn) hperm hsorted]

/-- Where the collation is bytewise the rows are compared as the records are. -/
theorem createdBefore_bytewise {col : Collation}
    (hcreated : col.Bytewise (t.postings.map fun p => toString p.createdAt))
    (hids : col.Bytewise (t.postings.map (·.postingId))) {p q : PostingRow} (hp : p ∈ t.postings)
    (hq : q ∈ t.postings) (h : p.createdBefore col q) :
    createdBefore (toString p.createdAt, p.postingId) (toString q.createdAt, q.postingId) := by
  have hcreatedAt : ∀ r ∈ t.postings,
      toString r.createdAt ∈ t.postings.map fun p => toString p.createdAt :=
    fun r hr => List.mem_map_of_mem hr
  obtain ⟨hle, htie⟩ := thenBy_iff.mp h
  rw [hcreated _ (hcreatedAt p hp) _ (hcreatedAt q hq), decide_eq_true_eq] at hle
  rw [hcreated _ (hcreatedAt q hq) _ (hcreatedAt p hp), decide_eq_true_eq,
    hids _ (List.mem_map_of_mem hp) _ (List.mem_map_of_mem hq), decide_eq_true_eq] at htie
  rw [createdBefore_iff, Prod.Lex.toLex_le_toLex]
  rcases hle.lt_or_eq with hlt | heq
  · exact Or.inl hlt
  · exact Or.inr ⟨heq, htie heq.ge⟩

/-- The two stores list the same accounts and postings, and count the same entries; the postings
    where the collation orders their ids and the texts of their times by code points. -/
structure ListingsAgree (t : Tables) (s : LedgerState) : Prop where
  accounts : ∀ rows typeFilter, ListsAccounts t rows →
    listAccountsDb (.ok rows) typeFilter = listAccounts s typeFilter
  account : ∀ id, getAccountDb (.ok (rowAt AccountRow.accountId t.accounts id)) = getAccount s id
  postings : ∀ col : Collation, col.Bytewise (t.postings.map fun p => toString p.createdAt) →
    col.Bytewise (t.postings.map (·.postingId)) →
    ∀ limit rows entries, ListsPostings col t limit rows → (∀ p ∈ rows,
      ∃ found, entries p.postingId = .ok found ∧
        Ordered (entriesOf t.entries p.postingId) found) →
    listPostingsDb (.ok rows) entries = listPostings s limit
  count : entryCountDb (.ok t.entries.length) = entryCount s

theorem listAccounts_agree (hn : (t.accounts.map (·.accountId)).Nodup) (hm : Mirrors t s)
    {rows : List AccountRow} (typeFilter : Option String) (h : ListsAccounts t rows) :
    listAccountsDb (.ok rows) typeFilter = listAccounts s typeFilter := by
  have hvalues : (s.accounts.entries.map (·.2)).Perm (rows.map (·.record)) :=
    (values_perm hn hm.accounts).trans (h.map _).symm
  have hfilter : (rows.filter fun a => typeFilter.all (a.typeName == ·)).map (·.record) =
      (rows.map (·.record)).filter fun a => typeFilter.all (a.typeName == ·) := by
    rw [List.filter_map]
    rfl
  have hkeys : ((rows.map (·.record)).map (·.accountId)).Nodup := by
    rw [List.map_map]
    exact ((h.map _).nodup_iff).mpr hn
  unfold listAccountsDb listAccounts
  simp only [hfilter]
  refine (sort_perm (createdBefore_compares _) (createdBefore_untied ?_) (hvalues.filter _)).symm
  exact hkeys.sublist (List.filter_sublist.map _)

theorem listPostings_agree (ht : t.Sound) (hm : Mirrors t s) {col : Collation}
    (hcreated : col.Bytewise (t.postings.map fun p => toString p.createdAt))
    (hids : col.Bytewise (t.postings.map (·.postingId))) {limit : Nat} {rows : List PostingRow}
    {entries : String → Except String (List EntryRow)} (h : ListsPostings col t limit rows)
    (hentries : ∀ p ∈ rows, ∃ found, entries p.postingId = .ok found ∧
      Ordered (entriesOf t.entries p.postingId) found) :
    listPostingsDb (.ok rows) entries = listPostings s limit := by
  obtain ⟨all, hperm, hsorted, rfl⟩ := h
  have hlisted : listPostingsDb (.ok (all.take (clampLimit limit))) entries =
      (all.map t.recordOf).take (clampLimit limit) := by
    unfold listPostingsDb
    rw [← List.map_take]
    refine List.map_congr_left fun p hp => ?_
    obtain ⟨found, hfound, hordered⟩ := hentries p hp
    rw [hfound, ordered_unique hordered (ht.increasing.sublist List.filter_sublist)]
    rfl
  have hvalues : s.recordedPostings.Perm (t.postings.map t.recordOf) := by
    refine values_perm ht.postingIds fun id => ?_
    rw [hm.postings]
    cases hrow : rowAt PostingRow.postingId t.postings id with
    | none => rfl
    | some p =>
      obtain ⟨_, rfl⟩ := rowAt_mem hrow
      rfl
  have hkeys : (s.recordedPostings.map (·.postingId)).Nodup := by
    have hrows := hvalues.map (·.postingId)
    rw [List.map_map] at hrows
    exact hrows.nodup_iff.mpr ht.postingIds
  have hu : Untied PostingRecord.createdBefore s.recordedPostings := createdBefore_untied hkeys
  have hsort : s.recordedPostings.mergeSort PostingRecord.createdBefore = all.map t.recordOf :=
    sort_unique postings_compares hu ((hperm.map _).trans hvalues.symm)
      (List.pairwise_map.mpr (hsorted.imp_of_mem fun hp hq hpq =>
        createdBefore_bytewise hcreated hids (hperm.subset hp) (hperm.subset hq) hpq))
  rw [hlisted, ← hsort]
  rfl

/-- **Mirrored tables are listed as the state is.** -/
theorem listings_agree (ht : t.Sound) (hm : Mirrors t s) : ListingsAgree t s where
  accounts _ typeFilter h := listAccounts_agree ht.accountIds hm typeFilter h
  account id := (hm.accounts id).symm
  postings _ hcreated hids _ _ _ h hentries := listPostings_agree ht hm hcreated hids h hentries
  count := by
    rw [entryCount, hm.entries, List.length_map]
    rfl

end Agree

/-- **The listings refine the in-memory listings.** On tables that hold accounts and no postings,
    after every run of calls that do not overlap and in which no statement fails, the store with a
    pool lists the accounts of every type as the store in memory does after the same calls, and the
    postings up to every limit where the collation of the database orders them by code points. -/
theorem pool_listings_agree (digest : ByteArray → String) (salt : String) (calls : Nat → PoolCall)
    (replica : Nat → Nat) (base : Tables) (inner : Nat → LedgerState)
    (accounts : AList (fun _ : String => Account)) (hbase : base.HoldsOnly accounts)
    (answers : List (Except PostError (PostingResponse × Bool))) (w : World)
    (h : Sequential digest salt calls True replica base inner answers w) :
    ListingsAgree w.db (runFrom digest salt (memoryCalls calls answers.length)
      (.holding accounts)) := by
  obtain ⟨_, ht, hm⟩ := sequential_simulates hbase h
  exact listings_agree ht.toSound hm

/-- The listings after a posting, its replay and a refusal. -/
theorem pool_listings_agree_sample :
    ListingsAgree sampleRefused.2.db
      (runFrom plainDigest sampleSalt (memoryCalls sampleAgain 3) (.holding sampleHeld)) :=
  pool_listings_agree plainDigest sampleSalt sampleAgain id sampleTables (fun _ => .new) sampleHeld
    sampleTables_holdsOnly _ _ sampleAgain_sequential

/-! ## 4. A listing amid posts -/

section Amid

variable {digest : ByteArray → String} {salt : String} {calls : Nat → PoolCall}
  {replica : Nat → Nat} {base : Tables} {c : Cluster}

/-- **The entries of a posting are complete as soon as it is committed**: no later transaction adds
    one. -/
theorem entriesOf_later (hs : c.Sound digest salt calls replica base) {n m : Nat} (h : n ≤ m)
    {id : String} (hid : (c.world.dbAt n).HasPosting id) :
    entriesOf (c.world.dbAt m).entries id = entriesOf (c.world.dbAt n).entries id := by
  induction m, h using Nat.le_induction with
  | base => rfl
  | succ m hnm ih =>
    rcases Nat.lt_or_ge m c.world.log.length with hm | hm
    · have hmem := List.getElem_mem hm
      obtain ⟨parsed, k, g, hbooked⟩ := hs.poolInv.booked hmem
      have hnone : entriesOf (c.world.log[m]).tables.entries id = [] := by
        refine entriesOf_none fun e he heq => ?_
        -- the transaction holds the posting of its entries, which is new to the tables before it
        have hown : (c.world.log[m]).tables.HasPosting id :=
          (hbooked.hasPosting id).mpr (heq.symm.trans (hbooked.postingId he))
        refine dbAt_lacks hs hm hown ?_
        obtain ⟨row, hrow, hrid⟩ := hid
        refine ⟨row, ?_, hrid⟩
        unfold World.dbAt at hrow ⊢
        rw [tablesAfter_postings] at hrow ⊢
        rcases List.mem_append.mp hrow with hrow | hrow
        · exact List.mem_append_left _ hrow
        · refine List.mem_append_right _ ?_
          obtain ⟨d, hd, hdrow⟩ := List.mem_flatMap.mp hrow
          exact List.mem_flatMap.mpr ⟨d, (List.take_prefix_take_left hnm).subset hd, hdrow⟩
      rw [dbAt_next hm, append_entries, entriesOf_append, hnone, List.append_nil, ih]
    · rw [dbAt_beyond (hm.trans (Nat.le_succ m)), ← dbAt_beyond hm, ih]

end Amid

/-- **A listing amid posts is that of the moment it was begun**, in every run of the cluster and
    under every collation, whatever is committed while the entries are read and whichever of these
    reads fail: the postings listed are those of that moment that fewer postings than the clamped
    limit precede. Each of them is shown as `get_posting` answers it at that moment, with both sides
    of each asset equal, or without entries, and that only where its entries could not be read. -/
theorem listing_one_moment (digest : ByteArray → String) (salt : String) (calls : Nat → PoolCall)
    (replica : Nat → Nat) (base : Tables) (inner : Nat → LedgerState) (hbase : base.InBalance)
    (c : Cluster) (h : ClusterReach digest salt calls replica base inner c) (col : Collation)
    (n limit : Nat) (rows : List PostingRow)
    (hrows : ListsPostings col (c.world.dbAt n) limit rows)
    (entries : String → Except String (List EntryRow))
    (hentries : ∀ p ∈ rows, ∀ found, entries p.postingId = .ok found →
      ∃ m, n ≤ m ∧ Ordered (entriesOf (c.world.dbAt m).entries p.postingId) found) :
    let t := c.world.dbAt n
    (∀ p ∈ t.postings, p ∈ rows ↔
      (t.postings.filter (ahead (PostingRow.createdBefore col) p)).length < clampLimit limit) ∧
    ∀ rec ∈ listPostingsDb (.ok rows) entries,
      (rec.entries = [] ↔ ∃ e, entries rec.postingId = .error e) ∧
      (rec.entries ≠ [] → 2 ≤ rec.entries.length ∧
        (∀ e ∈ rec.entries,
          sideTotal rec.entries "DEBIT" e.asset = sideTotal rec.entries "CREDIT" e.asset) ∧
        ∃ found, Ordered (entriesOf t.entries rec.postingId) found ∧
          getPostingDb (.ok (rowAt PostingRow.postingId t.postings rec.postingId)) (.ok found) =
            some rec) := by
  intro t
  have hs := cluster_sound h
  have ht : t.InBalance := cluster_inBalance hbase h n
  have hcut := listsPostings_eq ht.postingIds hrows
  have hin : ∀ p ∈ rows, p ∈ t.postings := by
    intro p hp
    rw [hcut] at hp
    exact List.mem_mergeSort.mp (List.mem_of_mem_take hp)
  refine ⟨fun p hp => ?_, fun rec hrec => ?_⟩
  · rw [hcut, mem_take_sort (postingRows_compares col) (postingRows_untied col ht.postingIds)
      ht.postingIds.of_map]
    exact and_iff_right hp
  · obtain ⟨p, hp, rfl⟩ := List.mem_map.mp hrec
    have hid : (p.record (listedEntries (entries p.postingId))).postingId = p.postingId := rfl
    rw [hid]
    cases hread : entries p.postingId with
    | error e => exact ⟨⟨fun _ => ⟨e, rfl⟩, fun _ => rfl⟩, fun hne => absurd rfl hne⟩
    | ok found =>
      obtain ⟨m, hnm, hordered⟩ := hentries p hp found hread
      rw [entriesOf_later hs hnm ⟨p, hin p hp, rfl⟩] at hordered
      have hwell : WellBooked (p.record (found.map (·.record))) :=
        (ht.wellBooked p (hin p hp)).perm (hordered.1.map _)
      refine ⟨⟨fun hnil => absurd hnil hwell.nonempty, ?_⟩, fun _ => ⟨hwell.two_le,
        fun e _ => hwell.totals_eq e.asset, found, hordered, ?_⟩⟩
      · rintro ⟨e, he⟩
        cases he
      · rw [rowAt_of_mem ht.postingIds (hin p hp)]
        rfl

/-- The listing is begun after the first of two calls side by side has committed, and reads the
    entries when the second has committed too. -/
theorem listing_one_moment_sample :
    (sampleOverlap.world.dbAt 1).postings.length = 1 ∧
    ∀ rec ∈ listPostingsDb (.ok (sampleOverlap.world.dbAt 1).postings)
        (fun id => .ok (bySequence (entriesOf (sampleOverlap.world.dbAt 2).entries id))),
      rec.entries ≠ [] := by
  have hlength : (sampleOverlap.world.dbAt 1).postings.length = 1 := by decide +kernel
  obtain ⟨p, hp⟩ := List.length_eq_one_iff.mp hlength
  refine ⟨hlength, fun rec hrec hnil => ?_⟩
  obtain ⟨e, he⟩ := ((listing_one_moment plainDigest sampleSalt sampleTwo id sampleTables
    (fun _ => .new) sampleTables_inBalance sampleOverlap sampleOverlap_reach .codePoints 1 50 _
    ⟨_, .refl _, by rw [hp]; exact List.pairwise_singleton _ _, by rw [hp]; rfl⟩ _
    fun p _ found hfound => ⟨2, by decide, by
      cases hfound
      exact bySequence_ordered _⟩).2 rec hrec).1.mp hnil
  cases he

end LedgerAccounting
