/-
  File:      LedgerAccounting/Pool/Pages.lean
  Subject:   Following `next_cursor` through the statement of an account with a pool, while other
             processes commit postings between the fetches.

  The cursor is a sequence number, so a page can only be cut between rows of different numbers.
  Serial commits, each made on the rows that its last hash was read from, number the rows upwards,
  and then nothing is lost; others may number two rows alike (Pool/Sequence.lean). A statement over
  a window has no pages (Pool/Statement.lean).

  * `pool_pages_complete`: serial commits, and a walk during them, lose and duplicate nothing.
  * `pages_complete_iff_numbered`: over tables at rest every walk is complete exactly when the rows
    of the account carry distinct numbers.
-/
import LedgerAccounting.Pool.Books
import LedgerAccounting.Pool.Sequence
import LedgerAccounting.Pool.Statement

namespace LedgerAccounting

/-! ## 1. Walks -/

section Walks

variable (accountId : String)

/-- The rows of the account. -/
def selectedRows (l : List EntryRow) : List EntryRow := l.filter fun e => e.accountId == accountId

/-- `Fetches limit cursor ls pages`: a client follows `next_cursor` from `cursor` on, without a
    window, the table of entries is `ls` at the successive fetches, and the pages are `pages`. The
    account exists, and nothing is assumed of the sums behind the final balances. -/
inductive Fetches (limit : Nat) : Option Nat → List (List EntryRow) → List LedgerPage → Prop where
  | stop (cursor : Option Nat) : Fetches limit cursor [] []
  | last {cursor : Option Nat} {l rows : List EntryRow} {ls : List (List EntryRow)}
      {sum : Except String Int} {page : LedgerPage}
      (answers : (entriesQuery accountId none none (clampLimit limit) cursor).Answers l (.ok rows))
      (fetched : ledgerDb accountId limit (.ok (some accountId)) (.ok rows) sum = .ok page)
      (ends : page.nextCursor = none) : Fetches limit cursor (l :: ls) [page]
  | next {cursor : Option Nat} {l rows : List EntryRow} {ls : List (List EntryRow)}
      {sum : Except String Int} {page : LedgerPage} {c : Nat} {pages : List LedgerPage}
      (answers : (entriesQuery accountId none none (clampLimit limit) cursor).Answers l (.ok rows))
      (fetched : ledgerDb accountId limit (.ok (some accountId)) (.ok rows) sum = .ok page)
      (follows : page.nextCursor = some c) (rest : Fetches limit (some c) ls pages) :
      Fetches limit cursor (l :: ls) (page :: pages)

end Walks

/-! ## 2. One page -/

section Page

variable {accountId : String} {limit : Nat} {cursor : Option Nat} {l m rows : List EntryRow}

/-- The query selects the rows of the account above its cursor. -/
theorem selects_above (hcursor : ∀ c ∈ cursor, c < 2 ^ 63) (limit : Nat) (l : List EntryRow) :
    l.filter (entriesQuery accountId none none limit cursor).selects =
      Paging.after (·.sequenceNumber) cursor (selectedRows accountId l) := by
  unfold Paging.after selectedRows
  rw [List.filter_filter]
  refine List.filter_congr fun e _ => ?_
  unfold entriesQuery EntriesQuery.selects
  cases cursor with
  | none => simp
  | some c =>
    have hc : asI64 c = c := asI64_small (hcursor c (Option.mem_some_self c))
    simp only [Option.map_some, Option.all_some, hc, Nat.cast_lt]
    exact Bool.and_comm _ _

/-- What a page holds: some order of the rows above the cursor, as far as the limit. -/
theorem page_of_answers (hcursor : ∀ c ∈ cursor, c < 2 ^ 63)
    (h : (entriesQuery accountId none none (clampLimit limit) cursor).Answers l (.ok rows))
    {sum : Except String Int} {page : LedgerPage}
    (hpage : ledgerDb accountId limit (.ok (some accountId)) (.ok rows) sum = .ok page) :
    ∃ all, Ordered (Paging.after (·.sequenceNumber) cursor (selectedRows accountId l)) all ∧
      page.entries.map (·.record) = (all.take (clampLimit limit)).map (·.record) ∧
      page.nextCursor = Paging.next (·.sequenceNumber) (clampLimit limit) all := by
  obtain ⟨_, all, hordered, hrows⟩ := h
  rw [selects_above hcursor] at hordered
  have hclamp : clampLimit limit ≤ 200 := by
    unfold clampLimit
    omega
  have hpos := clampLimit_pos limit
  have hsmall : clampLimit limit + 1 < 2 ^ 63 := by omega
  have htake : (entriesQuery accountId none none (clampLimit limit) cursor).limit.toNat =
      clampLimit limit + 1 := by
    simp only [entriesQuery, asI64_small hsmall, Int.toNat_natCast]
  have hmore : (all.take (clampLimit limit + 1)).length > clampLimit limit ↔
      clampLimit limit < all.length := by
    rw [List.length_take]
    omega
  rw [hrows, htake] at hpage
  unfold ledgerDb ledgerPageFromDb at hpage
  cases hpage
  refine ⟨all, hordered, ?_, ?_⟩
  · rw [runningItems_records, List.take_take, Nat.min_eq_left (Nat.le_succ _)]
  · unfold Paging.next
    by_cases hlt : clampLimit limit < all.length
    · have hlast : (all.take (clampLimit limit)).getLast? = all[clampLimit limit - 1]? := by
        rw [List.getLast?_eq_getElem?, List.length_take, Nat.min_eq_left hlt.le,
          List.getElem?_take_of_lt (by omega)]
      rw [if_pos (hmore.mpr hlt), if_pos hlt, hlast, List.getElem?_take_of_lt (by omega)]
    · rw [if_neg (mt hmore.mp hlt), if_neg hlt]

/-- The page of a selection whose rows, put in order, carry increasing numbers. -/
theorem page_of_increasing (hm : m.Perm (selectedRows accountId l))
    (hinc : Paging.Increasing (·.sequenceNumber) m) {all : List EntryRow}
    (hall : Ordered (Paging.after (·.sequenceNumber) cursor (selectedRows accountId l)) all) :
    all = Paging.after (·.sequenceNumber) cursor m :=
  ordered_unique ⟨hall.1.trans (hm.filter _).symm, hall.2⟩ (hinc.after cursor)

end Page

/-! ## 3. Walks over increasing numbers -/

section Increasing

variable {accountId : String} {limit : Nat}

/-- `m` is the rows of the account in order, and their numbers are distinct and fit. -/
structure SortedSelection (accountId : String) (l m : List EntryRow) : Prop where
  perm : m.Perm (selectedRows accountId l)
  increasing : Paging.Increasing (·.sequenceNumber) m
  fits : ∀ e ∈ m, e.sequenceNumber < 2 ^ 63

/-- **A walk over the pages is a walk over the selections.** -/
theorem fetches_walk {cursor : Option Nat} {ls ms : List (List EntryRow)} {pages : List LedgerPage}
    (h : Fetches accountId limit cursor ls pages)
    (hs : List.Forall₂ (SortedSelection accountId) ls ms) (hcursor : ∀ c ∈ cursor, c < 2 ^ 63) :
    seenEntries pages =
        (Paging.walk (·.sequenceNumber) (clampLimit limit) cursor ms).map (·.record) ∧
      (pages ≠ [] → walkEnded pages =
        Paging.ends (·.sequenceNumber) (clampLimit limit) cursor ms) := by
  induction h generalizing ms with
  | stop cursor =>
    cases hs
    exact ⟨rfl, fun hne => absurd rfl hne⟩
  | last answers fetched ends =>
    obtain ⟨m, ms, hlm, _, rfl⟩ := List.forall₂_cons_left_iff.mp hs
    obtain ⟨all, hall, hentries, hnext⟩ := page_of_answers hcursor answers fetched
    rw [page_of_increasing hlm.perm hlm.increasing hall] at hentries hnext
    rw [Paging.walk_cons, Paging.ends_cons, ← hnext, ends]
    exact ⟨by simp [seenEntries, hentries], fun _ => by simp [walkEnded, ends]⟩
  | @next cursor l rows ls sum page c pages answers fetched follows rest ih =>
    obtain ⟨m, ms, hlm, hrest, rfl⟩ := List.forall₂_cons_left_iff.mp hs
    obtain ⟨all, hall, hentries, hnext⟩ := page_of_answers hcursor answers fetched
    rw [page_of_increasing hlm.perm hlm.increasing hall] at hentries hnext
    -- the next cursor is the number of a row, so it fits
    have hfits : c < 2 ^ 63 := by
      obtain ⟨last, hlast, rfl⟩ := Option.map_eq_some_iff.mp
        (Paging.next_eq_some (hnext.symm.trans follows)).2
      have hmem := List.mem_of_mem_take (List.mem_of_getLast? hlast)
      exact hlm.fits last (Paging.mem_after.mp hmem).1
    obtain ⟨hseen, hended⟩ := ih hrest fun c' hc' => by
      cases hc'
      exact hfits
    rw [Paging.walk_cons, Paging.ends_cons, ← hnext, follows, List.map_append]
    refine ⟨?_, fun _ => ?_⟩
    · rw [seenEntries, List.flatMap_cons, hentries]
      exact congrArg (_ ++ ·) hseen
    · cases rest with
      | stop => cases hrest; simp [walkEnded, follows, Paging.ends]
      | last => exact hended (by simp)
      | next => exact hended (by simp)

end Increasing

/-! ## 4. Serial commits -/

section Serial

variable {digest : ByteArray → String} {salt : String} {calls : Nat → PoolCall} {w : World}

/-- The rows of an earlier moment stand in front of those of a later one. -/
theorem entries_grow {n m : Nat} (h : n ≤ m) : (w.dbAt n).entries <+: (w.dbAt m).entries := by
  rw [dbAt_split w h]
  exact List.prefix_append _ _

/-- Serial commits number the rows upwards at every moment. -/
theorem serial_increasing (hI : PoolInv digest salt calls w)
    (hbase : Chained digest salt w.base.entries) (hs : Serial w) (n : Nat) :
    Paging.Increasing (·.sequenceNumber) (w.dbAt n).entries := by
  rcases Nat.lt_or_ge n w.log.length with hn | hn
  · exact (chained_dbAt hI hbase n hn.le fun k hk _ => hs k hk).increasing
  · rw [dbAt_beyond hn, ← dbAt_length]
    exact (chained_dbAt hI hbase _ le_rfl fun k hk _ => hs k hk).increasing

end Serial

/-- **Serial commits and walks beside each other lose and duplicate nothing**: in every run of the
    cluster whose commits were serial, from tables that carry the chain, for every account and
    limit, a client that follows `next_cursor` while commits go on between its fetches sees rows in
    increasing order of their numbers, each of them committed when it was fetched, and by the end of
    its walk every row of the account that was committed at its first fetch. -/
theorem pool_pages_complete (digest : ByteArray → String) (salt : String)
    (calls : Nat → PoolCall) (replica : Nat → Nat) (base : Tables) (inner : Nat → LedgerState)
    (hbase : Chained digest salt base.entries) (c : Cluster)
    (h : ClusterReach digest salt calls replica base inner c) (hserial : Serial c.world)
    (hfits : ∀ e ∈ c.world.db.entries, e.sequenceNumber < 2 ^ 63)
    (accountId : String) (limit : Nat) (moments : List Nat)
    (hmoments : moments.Pairwise (· ≤ ·)) (pages : List LedgerPage)
    (hwalk : Fetches accountId limit none (moments.map fun n => (c.world.dbAt n).entries) pages) :
    let selected := fun n => selectedRows accountId (c.world.dbAt n).entries
    (seenEntries pages).Pairwise (fun a b => a.sequenceNumber < b.sequenceNumber) ∧
      (∀ e ∈ seenEntries pages, ∃ n ∈ moments, e ∈ (selected n).map (·.record)) ∧
      (walkEnded pages = true → ∀ n ∈ moments.head?, ∀ e ∈ (selected n).map (·.record),
        e ∈ seenEntries pages) := by
  intro selected
  have hs := cluster_sound h
  have hinc := serial_increasing hs.poolInv (hs.base ▸ hbase) hserial
  have hsorted : ∀ n, SortedSelection accountId (c.world.dbAt n).entries (selected n) := fun n =>
    { perm := .refl _
      increasing := (hinc n).filter _
      fits := fun e he => by
        refine hfits e ?_
        have hmem := List.mem_of_mem_filter he
        rw [← dbAt_beyond (le_max_right n c.world.log.length)]
        exact (entries_grow (le_max_left n c.world.log.length)).subset hmem }
  have hall : ∀ l ∈ moments.map selected, Paging.Increasing (·.sequenceNumber) l := by
    intro l hl
    obtain ⟨n, _, rfl⟩ := List.mem_map.mp hl
    exact (hsorted n).increasing
  have hforall : List.Forall₂ (SortedSelection accountId)
      (moments.map fun n => (c.world.dbAt n).entries) (moments.map selected) := by
    rw [List.forall₂_map_left_iff, List.forall₂_map_right_iff]
    exact List.forall₂_same.mpr fun n _ => hsorted n
  obtain ⟨hseen, hended⟩ := fetches_walk hwalk hforall (by simp)
  rw [hseen]
  refine ⟨List.pairwise_map.mpr (Paging.walk_increasing hall), fun e he => ?_,
    fun hend n hn e he => ?_⟩
  · obtain ⟨row, hrow, rfl⟩ := List.mem_map.mp he
    obtain ⟨_, l, hl, hin⟩ := Paging.walk_mem hall hrow
    obtain ⟨n, hn, rfl⟩ := List.mem_map.mp hl
    exact ⟨n, hn, List.mem_map_of_mem hin⟩
  · obtain ⟨row, hrow, rfl⟩ := List.mem_map.mp he
    refine List.mem_map_of_mem ?_
    cases moments with
    | nil => cases hn
    | cons m ns =>
      obtain rfl : m = n := Option.some.inj hn
      have hne : pages ≠ [] := by
        rintro rfl
        cases hwalk
      have hchain : ((m :: ns).map selected).IsChain (· <+: ·) := by
        rw [List.isChain_map]
        exact hmoments.isChain.imp fun a b hab => (entries_grow hab).filter _
      exact Paging.walk_complete (clampLimit_pos limit) hall hchain ((hended hne).symm.trans hend)
        row (Paging.mem_after.mpr ⟨hrow, by simp⟩)

/-! ## 5. Tables at rest -/

section Rest

variable {accountId : String} {limit : Nat} {l : List EntryRow}

/-- The page the database answers with when it leaves ties in the order of the table. -/
theorem exists_page (accountId : String) (limit : Nat) (cursor : Option Nat) (l : List EntryRow) :
    ∃ rows page,
      (entriesQuery accountId none none (clampLimit limit) cursor).Answers l (.ok rows) ∧
      ledgerDb accountId limit (.ok (some accountId)) (.ok rows) (.ok 0) = .ok page :=
  ⟨_, _, ⟨⟨rfl, rfl⟩, _, bySequence_ordered _, rfl⟩, rfl⟩

/-- **Every table has a walk that ends**, from every cursor that fits. -/
theorem exists_fetches (accountId : String) (limit : Nat)
    (hfits : ∀ e ∈ l, e.sequenceNumber < 2 ^ 63) (k : Nat) (cursor : Option Nat)
    (hcursor : ∀ c ∈ cursor, c < 2 ^ 63)
    (hk : (Paging.after (·.sequenceNumber) cursor (selectedRows accountId l)).length ≤ k) :
    ∃ n pages, Fetches accountId limit cursor (List.replicate n l) pages ∧
      pages ≠ [] ∧ walkEnded pages = true := by
  induction k generalizing cursor with
  | zero =>
    obtain ⟨rows, page, hanswers, hpage⟩ := exists_page accountId limit cursor l
    obtain ⟨all, hall, _, hnext⟩ := page_of_answers hcursor hanswers hpage
    have hnil : all = [] := by
      have hlen := hall.1.length_eq
      exact List.eq_nil_of_length_eq_zero (by omega)
    have hnone : page.nextCursor = none := by
      rw [hnext, hnil]
      simp [Paging.next]
    exact ⟨1, [page], .last hanswers hpage hnone, by simp, by simp [walkEnded, hnone]⟩
  | succ k ih =>
    obtain ⟨rows, page, hanswers, hpage⟩ := exists_page accountId limit cursor l
    obtain ⟨all, hall, _, hnext⟩ := page_of_answers hcursor hanswers hpage
    cases hc : page.nextCursor with
    | none => exact ⟨1, [page], .last hanswers hpage hc, by simp, by simp [walkEnded, hc]⟩
    | some c =>
      obtain ⟨last, hlast, rfl⟩ := Option.map_eq_some_iff.mp
        (Paging.next_eq_some (hnext.symm.trans hc)).2
      have habove := hall.1.subset (List.mem_of_mem_take (List.mem_of_getLast? hlast))
      obtain ⟨hin, hgt⟩ := Paging.mem_after.mp habove
      -- the row the cursor is taken from does not stand above it
      have hfewer : (Paging.after (·.sequenceNumber) (some last.sequenceNumber)
          (selectedRows accountId l)).length <
          (Paging.after (·.sequenceNumber) cursor (selectedRows accountId l)).length := by
        rw [← Paging.after_after hgt]
        refine List.length_filter_lt_length_iff_exists.mpr ⟨last, habove, ?_⟩
        simp
      obtain ⟨n, pages, hwalk, hne, hend⟩ := ih (some last.sequenceNumber)
        (fun c' hc' => by
          cases hc'
          exact hfits last (List.mem_of_mem_filter hin))
        (by omega)
      refine ⟨n + 1, page :: pages, .next hanswers hpage hc hwalk, by simp, ?_⟩
      rw [walkEnded, List.getLast?_cons_of_ne_nil hne]
      exact hend

/-- On pages of one row the numbers increase, whatever the table. -/
theorem fetches_increasing {cursor : Option Nat} {ls : List (List EntryRow)}
    {pages : List LedgerPage} (h : Fetches accountId 1 cursor ls pages)
    (hfits : ∀ l ∈ ls, ∀ e ∈ l, e.sequenceNumber < 2 ^ 63) (hcursor : ∀ c ∈ cursor, c < 2 ^ 63) :
    (seenEntries pages).Pairwise (fun a b => a.sequenceNumber < b.sequenceNumber) ∧
      ∀ e ∈ seenEntries pages, ∀ c ∈ cursor, c < e.sequenceNumber := by
  have hshown : ∀ {cursor : Option Nat} {l all : List EntryRow} {page : LedgerPage},
      Ordered (Paging.after (·.sequenceNumber) cursor (selectedRows accountId l)) all →
      page.entries.map (·.record) = (all.take 1).map (·.record) →
      ∀ e ∈ page.entries.map (·.record), ∀ c ∈ cursor, c < e.sequenceNumber := by
    intro cursor l all page hall hentries e he
    rw [hentries] at he
    obtain ⟨row, hrow, rfl⟩ := List.mem_map.mp he
    exact (Paging.mem_after.mp (hall.1.subset (List.mem_of_mem_take hrow))).2
  induction h with
  | stop cursor => exact ⟨.nil, fun e he => absurd he List.not_mem_nil⟩
  | @last cursor l rows ls sum page answers fetched ends =>
    obtain ⟨all, hall, hentries, _⟩ := page_of_answers hcursor answers fetched
    have hone : seenEntries [page] = page.entries.map (·.record) := by simp [seenEntries]
    rw [hone]
    refine ⟨?_, hshown hall hentries⟩
    rw [hentries]
    cases all with
    | nil => exact .nil
    | cons row all => exact List.pairwise_singleton _ _
  | @next cursor l rows ls sum page c pages answers fetched follows rest ih =>
    obtain ⟨all, hall, hentries, hnext⟩ := page_of_answers hcursor answers fetched
    obtain ⟨last, hlast, rfl⟩ := Option.map_eq_some_iff.mp
      (Paging.next_eq_some (hnext.symm.trans follows)).2
    have hin := hall.1.subset (List.mem_of_mem_take (List.mem_of_getLast? hlast))
    obtain ⟨hmem, hgt⟩ := Paging.mem_after.mp hin
    rw [List.forall_mem_cons] at hfits
    obtain ⟨hpages, habove⟩ := ih hfits.2 fun c' hc' => by
      cases hc'
      exact hfits.1 last (List.mem_of_mem_filter hmem)
    have hcons : seenEntries (page :: pages) =
        page.entries.map (·.record) ++ seenEntries pages := rfl
    rw [hcons]
    constructor
    · rw [List.pairwise_append, hentries]
      -- the page shows one row, and its number is the cursor of the rest
      have hpos : clampLimit 1 = 1 := rfl
      rw [hpos] at hlast ⊢
      cases all with
      | nil => cases hlast
      | cons row all =>
        obtain rfl : row = last := by simpa using hlast
        refine ⟨List.pairwise_singleton _ _, hpages, fun a ha b hb => ?_⟩
        obtain rfl : a = row.record := by simpa using ha
        exact habove b hb _ rfl
    · intro e he c' hc'
      rcases List.mem_append.mp he with he | he
      · exact hshown hall hentries e he c' hc'
      · exact (hgt c' hc').trans (habove e he _ rfl)

/-- The rows of an account with distinct numbers, put in order. -/
theorem sorted_of_numbered (hfits : ∀ e ∈ l, e.sequenceNumber < 2 ^ 63)
    (hnodup : ((selectedRows accountId l).map (·.sequenceNumber)).Nodup) :
    SortedSelection accountId l (bySequence (selectedRows accountId l)) := by
  obtain ⟨hperm, hle⟩ := bySequence_ordered (selectedRows accountId l)
  have hnum := (hperm.map EntryRow.sequenceNumber).nodup_iff.mpr hnodup
  have hne := List.pairwise_map.mp hnum
  exact ⟨hperm, (hle.and hne).imp fun hab => lt_of_le_of_ne hab.1 hab.2,
    fun e he => hfits e (List.mem_of_mem_filter (hperm.subset he))⟩

/-- **When the pages of a table at rest are complete**: for every limit, every walk over them that
    has ended has seen the rows of the account, exactly when these carry distinct numbers. -/
theorem pages_complete_iff_numbered (accountId : String) (l : List EntryRow)
    (hfits : ∀ e ∈ l, e.sequenceNumber < 2 ^ 63) :
    (∀ limit n pages, Fetches accountId limit none (List.replicate n l) pages →
      pages ≠ [] → walkEnded pages = true →
      (seenEntries pages).Perm ((selectedRows accountId l).map (·.record))) ↔
    ((selectedRows accountId l).map (·.sequenceNumber)).Nodup := by
  constructor
  · intro h
    obtain ⟨n, pages, hwalk, hne, hend⟩ := exists_fetches accountId 1 hfits
      _ none (by simp) le_rfl
    have hall : ∀ m ∈ List.replicate n l, ∀ e ∈ m, e.sequenceNumber < 2 ^ 63 := by
      intro m hm
      rw [List.eq_of_mem_replicate hm]
      exact hfits
    obtain ⟨hinc, _⟩ := fetches_increasing hwalk hall (by simp)
    have hnodup : ((seenEntries pages).map (·.sequenceNumber)).Nodup :=
      List.pairwise_map.mpr (hinc.imp fun hlt => Nat.ne_of_lt hlt)
    have hperm := (h 1 n pages hwalk hne hend).map (·.sequenceNumber)
    rw [List.map_map] at hperm
    exact hperm.nodup_iff.mp hnodup
  · intro hnodup limit n pages hwalk hne hend
    have hsorted := sorted_of_numbered hfits hnodup
    have hforall : List.Forall₂ (SortedSelection accountId)
        (List.replicate n l) (List.replicate n (bySequence (selectedRows accountId l))) :=
      List.forall₂_iff_get.mpr ⟨by simp, fun i _ _ => by simpa using hsorted⟩
    obtain ⟨hseen, hended⟩ := fetches_walk hwalk hforall (by simp)
    have hwalked := Paging.walk_ended (clampLimit_pos limit) hsorted.increasing
      ((hended hne).symm.trans hend)
    rw [hseen]
    exact (hwalked.trans hsorted.perm).map _

end Rest

/-! ## 6. Two samples -/

theorem fits_of_numbers {l : List EntryRow} {numbers : List Nat}
    (h : l.map (·.sequenceNumber) = numbers) (hn : ∀ n ∈ numbers, n < 2 ^ 63) :
    ∀ e ∈ l, e.sequenceNumber < 2 ^ 63 := fun _ he => hn _ (h ▸ List.mem_map_of_mem he)

/-- The two calls of Sequence.lean, one after the other. -/
def sampleOneByOne : Cluster :=
  (Cluster.start sampleTables fun _ => .new).turns plainDigest sampleSalt sampleTwo id (exec id)
    (List.replicate 16 0 ++ List.replicate 16 1)

theorem sampleOneByOne_serial : Serial sampleOneByOne.world := by
  have hlength : sampleOneByOne.world.log.length = 2 := by decide +kernel
  intro k hk
  rw [hlength] at hk
  interval_cases k
  · exact SerialAt.of_read (by with_unfolding_all rfl)
  · exact SerialAt.of_read (by with_unfolding_all rfl)

/-- A walk in steps of one row over what the two calls have booked on one account. -/
theorem pool_pages_complete_sample : ∃ pages, walkEnded pages = true ∧
    (seenEntries pages).Pairwise (fun a b => a.sequenceNumber < b.sequenceNumber) ∧
    ∀ e ∈ (selectedRows "uc" (sampleOneByOne.world.dbAt 2).entries).map (·.record),
      e ∈ seenEntries pages := by
  have hnumbers : sampleOneByOne.world.db.entries.map (·.sequenceNumber) = [1, 2, 3, 4] := by
    decide +kernel
  have hfits := fits_of_numbers hnumbers (by decide)
  have hlast : sampleOneByOne.world.dbAt 2 = sampleOneByOne.world.db := by
    have hlength : sampleOneByOne.world.log.length = 2 := by decide +kernel
    rw [← hlength, dbAt_length]
  obtain ⟨n, pages, hwalk, hne, hend⟩ := exists_fetches "uc" 1 hfits _ none
    (by simp) le_rfl
  have hn : n ≠ 0 := by
    rintro rfl
    cases hwalk
    exact hne rfl
  obtain ⟨k, rfl⟩ := Nat.exists_eq_succ_of_ne_zero hn
  have hall := pool_pages_complete plainDigest sampleSalt sampleTwo id sampleTables
    (fun _ => .new) chained_nil sampleOneByOne (reach_turns (exec_sound id) _ _)
    sampleOneByOne_serial hfits "uc" 1 (List.replicate (k + 1) 2)
    (List.pairwise_replicate.mpr (Or.inr le_rfl)) pages (by
      rw [List.map_replicate, hlast]
      exact hwalk)
  exact ⟨pages, hend, hall.1, hall.2.2 hend 2 rfl⟩

/-- Two calls that have both read the empty table number their rows alike, and some walk over the
    statement of their account misses a row. -/
theorem overlap_pages_incomplete : ¬ ∀ limit n pages,
    Fetches "uc" limit none
      (List.replicate n sampleOverlap.world.db.entries) pages →
    pages ≠ [] → walkEnded pages = true → (seenEntries pages).Perm
      ((selectedRows "uc" sampleOverlap.world.db.entries).map (·.record)) := by
  have hnumbers : sampleOverlap.world.db.entries.map (·.sequenceNumber) = [1, 2, 1, 2] := by
    decide +kernel
  have hfits := fits_of_numbers hnumbers (by decide)
  have hselected : (selectedRows "uc" sampleOverlap.world.db.entries).map
      (·.sequenceNumber) = [1, 1] := by
    decide +kernel
  rw [pages_complete_iff_numbered "uc" _ hfits, hselected]
  decide

end LedgerAccounting
