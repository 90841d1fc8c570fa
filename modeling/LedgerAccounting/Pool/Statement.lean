/-
  File:      LedgerAccounting/Pool/Statement.lean
  Subject:   The statement of an account with a pool (`ledger_page_from_db`), and when it is the
             page the in-memory store returns for the same entries.

  The query filters, orders and cuts off one row behind the page; the in-memory store does the same
  with the whole list. What differs is the cursor, a `u64` the query binds as an `i64`, and the sum
  behind the final balance, in which every direction that is not DEBIT counts as a credit; and a
  window, which the query cannot have.

  * `ledgerDb_window`: with a pool a statement over a window is an error.
  * `ledger_pages_agree_iff`: without one, when the two stores return one page.
-/
import LedgerAccounting.Pool.Reads
import LedgerAccounting.Memory.Statement

namespace LedgerAccounting

/-! ## 1. The query -/

/-- `n as i64`, for a `u64` or a `usize`. -/
def asI64 (n : Nat) : Int := (n : Int).bmod (2 ^ 64)

/-- What the query builder of `ledger_page_from_db` binds. -/
structure EntriesQuery where
  accountId : String
  since : Option String
  till : Option String
  after : Option Int
  limit : Int

def entriesQuery (accountId : String) (since till : Option String) (limit : Nat)
    (cursor : Option Nat) : EntriesQuery where
  accountId := accountId
  since := since
  till := till
  after := cursor.map asI64
  limit := asI64 (limit + 1)

/-- The rows a query without a window selects. -/
def EntriesQuery.selects (q : EntriesQuery) (e : EntryRow) : Bool :=
  e.accountId == q.accountId && q.after.all fun (c : Int) => decide (c < (e.sequenceNumber : Int))

/-- What the database answers to the query: the selected rows by sequence number, cut off at the
    limit, which is not negative. The bounds of a window are bound as `TEXT`, and the database has
    no `to_timestamp` of one `TEXT`: a query with a bound is an error. -/
def EntriesQuery.Answers (q : EntriesQuery) (l : List EntryRow) :
    Except String (List EntryRow) → Prop
  | .ok rows => (q.since = none ∧ q.till = none) ∧
      ∃ all, Ordered (l.filter q.selects) all ∧ rows = all.take q.limit.toNat
  | .error _ => q.since ≠ none ∨ q.till ≠ none

/-- `ledger_page_from_db`, on the results of its two queries. -/
def ledgerPageFromDb (accountId : String) (limit : Nat) (rows : Except String (List EntryRow))
    (sum : Except String Int) : Except String LedgerPage :=
  match rows with
  | .error e => .error s!"ledger: {e}"
  | .ok rows =>
    let finalBalance := (balanceFromDb sum).getD 0
    let nextCursor :=
      if rows.length > limit then (rows[limit - 1]?).map (·.sequenceNumber) else none
    let entries := (rows.take limit).map (·.record)
    .ok
      { accountId := accountId
        entries := runningItems 0 entries
        nextCursor := nextCursor
        finalBalance := finalBalance }

/-- `Store::ledger` with a pool, on the results of its queries. -/
def ledgerDb (accountId : String) (limit : Nat) (found : Except String (Option String))
    (rows : Except String (List EntryRow)) (sum : Except String Int) : Except String LedgerPage :=
  let limit := clampLimit limit
  match found with
  | .error e => .error s!"ledger: account lookup: {e}"
  | .ok none => .error s!"account not found: {accountId}"
  | .ok (some _) => ledgerPageFromDb accountId limit rows sum

/-! ## 2. The rows of a page -/

theorem asI64_small {n : Nat} (h : n < 2 ^ 63) : asI64 n = n := by
  unfold asI64
  rw [Int.bmod_eq_of_le]
  · omega
  · omega

theorem asI64_large {n : Nat} (h : 2 ^ 63 ≤ n) (h' : n < 2 ^ 64) : asI64 n < 0 := by
  have hself : (n : Int) % (2 ^ 64 : Nat) = n := Int.emod_eq_of_lt (by omega) (by omega)
  have hbranch : ¬ (n : Int) < ((2 ^ 64 : Nat) + 1) / 2 := by omega
  unfold asI64 Int.bmod
  simp only [hself, hbranch, if_false]
  omega

/-- **One row more than the page is enough to see whether something follows it.** -/
theorem ledgerPageFromDb_lookahead (accountId : String) {limit : Nat} (hpos : 0 < limit)
    (l : List EntryRow) (sum : Int) :
    ledgerPageFromDb accountId limit (.ok (l.take (limit + 1))) (.ok sum) = .ok
      { accountId := accountId
        entries := runningItems 0 ((l.take limit).map (·.record))
        nextCursor := if l.length > limit then (l[limit - 1]?).map (·.sequenceNumber) else none
        finalBalance := sum } := by
  have hmore : (l.take (limit + 1)).length > limit ↔ l.length > limit := by
    rw [List.length_take]
    omega
  have hlast : (l.take (limit + 1))[limit - 1]? = l[limit - 1]? :=
    List.getElem?_take_of_lt (by omega)
  have hpage : (l.take (limit + 1)).take limit = l.take limit := by
    rw [List.take_take, Nat.min_eq_left (by omega)]
  unfold ledgerPageFromDb balanceFromDb
  simp only [hmore, hlast, hpage, Option.getD_some]

/-- **A statement over a window is an error**, whatever the table, the limit and the cursor. -/
theorem ledgerDb_window {accountId : String} {since till : Option String} {limit : Nat}
    {cursor : Option Nat} {l : List EntryRow} {r : Except String (List EntryRow)}
    (hbound : since ≠ none ∨ till ≠ none)
    (h : (entriesQuery accountId since till (clampLimit limit) cursor).Answers l r)
    (found : Except String (Option String)) (sum : Except String Int) :
    ∃ e, ledgerDb accountId limit found r sum = .error e := by
  cases r with
  | ok rows =>
    obtain ⟨⟨hsince, htill⟩, _⟩ := h
    exact absurd hbound (not_or.mpr ⟨not_not.mpr hsince, not_not.mpr htill⟩)
  | error e =>
    rcases found with e' | found
    · exact ⟨_, rfl⟩
    · cases found <;> exact ⟨_, rfl⟩

/-- The rows of a table with increasing sequence numbers that a query answers. -/
theorem answers_eq {accountId : String} {limit : Nat} {cursor : Option Nat}
    {l rows : List EntryRow}
    (hinc : l.Pairwise fun a b => a.sequenceNumber < b.sequenceNumber) (hlimit : limit ≤ 200)
    (h : (entriesQuery accountId none none limit cursor).Answers l (.ok rows)) :
    rows = (l.filter fun e => e.accountId == accountId &&
      (cursor.map asI64).all fun c => decide (c < (e.sequenceNumber : Int))).take (limit + 1) := by
  obtain ⟨_, all, hordered, hrows⟩ := h
  have hall := ordered_unique hordered (hinc.sublist List.filter_sublist)
  have hsmall : limit + 1 < 2 ^ 63 := by omega
  have htake : (entriesQuery accountId none none limit cursor).limit.toNat = limit + 1 := by
    simp only [entriesQuery, asI64_small hsmall, Int.toNat_natCast]
  rw [hrows, hall, htake]
  rfl

/-! ## 3. The two pages -/

/-- The rows of the table are numbered from 1 on and are the entries of the state; their amounts are
    positive, as the table demands, and of 64 bits, as the entries are. -/
structure SameEntries (l : List EntryRow) (state : LedgerState) : Prop where
  entries : state.entries = l.map (·.record)
  numbers : l.map (·.sequenceNumber) = List.range' 1 l.length
  amounts : ∀ e ∈ l, 0 < e.amount ∧ e.amount < 2 ^ 64
  size : l.length < 2 ^ 63

variable {l : List EntryRow} {state : LedgerState} {accountId : String}

theorem SameEntries.increasing (h : SameEntries l state) :
    l.Pairwise fun a b => a.sequenceNumber < b.sequenceNumber :=
  Paging.increasing_of_numbered h.numbers

theorem SameEntries.number_lt (h : SameEntries l state) {e : EntryRow} (he : e ∈ l) :
    e.sequenceNumber < 2 ^ 63 := by
  have hbounds := Paging.numbered_bounds h.numbers he
  have hsize := h.size
  omega

/-- The direction of the row is one of the two. -/
def EntryRow.Directed (e : EntryRow) : Prop := e.direction = "DEBIT" ∨ e.direction = "CREDIT"

instance : DecidablePred EntryRow.Directed := fun e =>
  inferInstanceAs (Decidable (e.direction = "DEBIT" ∨ e.direction = "CREDIT"))

/-- The amount of a row whose direction is none. -/
def EntryRow.undirected (e : EntryRow) : Nat := if e.Directed then 0 else e.amount

/-- A row counts in the sum of the database what its entry counts in memory, less its amount where
    its direction is none. -/
theorem row_signed {e : EntryRow} (ha : e.amount < 2 ^ 64) :
    (if e.direction = "DEBIT" then (e.amount : Int) else -e.amount) =
      e.record.signed - e.undirected := by
  unfold EntryRecord.signed EntryRow.record EntryRow.undirected EntryRow.Directed
  simp only [ha, if_true]
  by_cases hd : e.direction = "DEBIT"
  · simp [hd]
  · by_cases hc : e.direction = "CREDIT"
    · simp [hc]
    · simp [hd, hc]

/-- **The sum of the database is the computed balance, less the amounts of the rows without a
    direction.** -/
theorem sumSigned_undirected (h : SameEntries l state) (accountId : String) :
    sumSigned l accountId "" = computeBalance state accountId "" -
      ((l.filter fun e => e.accountId == accountId).map (·.undirected)).sum := by
  have hrows : ∀ m : List EntryRow, (∀ e ∈ m, e.amount < 2 ^ 64) →
      (m.map fun e => if e.direction = "DEBIT" then (e.amount : Int) else -e.amount).sum =
        ((m.map (·.record)).map (·.signed)).sum - (m.map (·.undirected)).sum := by
    intro m hm
    induction m with
    | nil => rfl
    | cons e m ih =>
      rw [List.forall_mem_cons] at hm
      simp only [List.map_cons, List.sum_cons, ih hm.2, row_signed hm.1, Nat.cast_add]
      omega
  unfold sumSigned
  rw [computeBalance_signed, matching_all, h.entries, List.filter_map]
  simp only [beq_self_eq_true, Bool.true_or, Bool.and_true]
  exact hrows _ fun e he => (h.amounts e (List.mem_of_mem_filter he)).2

/-- The two balances agree exactly when every row of the account has a direction. -/
theorem sumSigned_eq_iff (h : SameEntries l state) (accountId : String) :
    sumSigned l accountId "" = computeBalance state accountId "" ↔
      ∀ e ∈ l, e.accountId = accountId → e.Directed := by
  have hrow : ∀ e ∈ l, e.undirected = 0 ↔ e.Directed := by
    intro e he
    have hpos := (h.amounts e he).1
    unfold EntryRow.undirected
    by_cases hd : e.Directed
    · simp only [hd, if_true]
    · simp only [hd, if_false, iff_false]
      omega
  rw [sumSigned_undirected h, sub_eq_self, Nat.cast_eq_zero, List.sum_eq_zero_iff]
  simp only [List.forall_mem_map, List.mem_filter, beq_iff_eq, and_imp]
  exact forall₂_congr fun e he => imp_congr_right fun _ => hrow e he

/-- What the in-memory store returns for the entries of the table. -/
theorem ledger_of_rows (h : SameEntries l state) {acc : Account}
    (hacc : getAccount state accountId = some acc) (limit : Nat) (cursor : Option Nat) :
    let above := l.filter fun e => e.accountId == accountId &&
      cursor.all fun c => decide (c < e.sequenceNumber)
    ledger state accountId none none limit cursor = .ok
      { accountId := accountId
        entries := runningItems 0 ((above.take (clampLimit limit)).map (·.record))
        nextCursor := if above.length > clampLimit limit then
          (above[clampLimit limit - 1]?).map (·.sequenceNumber) else none
        finalBalance := computeBalance state accountId "" } := by
  intro above
  have hinc : Paging.Increasing (·.sequenceNumber) state.entries := by
    unfold Paging.Increasing
    rw [h.entries, List.pairwise_map]
    exact h.increasing
  have hentries : statementEntries state accountId none none cursor = above.map (·.record) := by
    rw [statementEntries_of_increasing hinc, Paging.after, h.entries, List.filter_filter,
      List.filter_map]
    refine congrArg (List.map _) (List.filter_congr fun e _ => ?_)
    unfold inStatement EntryRow.record
    simp only [Function.comp_apply, Option.all_none, Bool.and_true]
    exact Bool.and_comm _ _
  have hknown : (state.accounts.lookup accountId).isNone = false := by
    rw [show state.accounts.lookup accountId = some acc from hacc]
    rfl
  unfold ledger
  simp only [hknown, Bool.false_eq_true, if_false, hentries, List.length_map, List.map_take,
    List.getElem?_map, Option.map_map]
  rfl

/-- The rows above the cursor as the query reads it are those above the cursor where it fits an
    `i64`, or where the account has no rows. -/
theorem above_cast_eq {cursor : Option Nat}
    (h : (∀ c ∈ cursor, c < 2 ^ 63) ∨ ∀ e ∈ l, e.accountId ≠ accountId) :
    (l.filter fun e => e.accountId == accountId &&
      (cursor.map asI64).all fun c => decide (c < (e.sequenceNumber : Int))) =
    l.filter fun e => e.accountId == accountId &&
      cursor.all fun c => decide (c < e.sequenceNumber) := by
  refine List.filter_congr fun e he => ?_
  rcases h with hsmall | hnone
  · cases cursor with
    | none => rfl
    | some c =>
      rw [Option.map_some, Option.all_some, Option.all_some, asI64_small (hsmall c rfl)]
      simp only [Nat.cast_lt]
  · simp only [beq_eq_false_iff_ne.mpr (hnone e he), Bool.false_and]

variable (accountId) in
/-- A larger cursor wraps around to a negative number: in memory nothing is above it, for the query
    everything. -/
theorem above_cast_wrapped (h : SameEntries l state) {c : Nat} (hlarge : 2 ^ 63 ≤ c)
    (hc : c < 2 ^ 64) :
    (l.filter fun e => e.accountId == accountId &&
      ((some c).map asI64).all fun c => decide (c < (e.sequenceNumber : Int))) =
        l.filter (fun e => e.accountId == accountId) ∧
    (l.filter fun e => e.accountId == accountId &&
      (some c).all fun c => decide (c < e.sequenceNumber)) = [] := by
  constructor
  · refine List.filter_congr fun e _ => ?_
    have hneg := asI64_large hlarge hc
    have hbelow : asI64 c < (e.sequenceNumber : Int) := by omega
    rw [Option.map_some, Option.all_some, decide_eq_true hbelow, Bool.and_true]
  · refine List.filter_eq_nil_iff.mpr fun e he => ?_
    have hnumber := h.number_lt he
    have hnot : ¬ c < e.sequenceNumber := by omega
    rw [Option.all_some, decide_eq_false hnot, Bool.and_false]
    exact Bool.false_ne_true

/-- Whether the rows are the same is seen on the first page. -/
theorem above_cast_iff (h : SameEntries l state) {cursor : Option Nat}
    (hcursor : ∀ c ∈ cursor, c < 2 ^ 64) {limit : Nat} (hpos : 0 < limit) :
    ((l.filter fun e => e.accountId == accountId &&
      (cursor.map asI64).all fun c => decide (c < (e.sequenceNumber : Int))).take limit).map
        (·.record) =
      ((l.filter fun e => e.accountId == accountId &&
        cursor.all fun c => decide (c < e.sequenceNumber)).take limit).map (·.record) ↔
      (∀ c ∈ cursor, c < 2 ^ 63) ∨ ∀ e ∈ l, e.accountId ≠ accountId := by
  constructor
  · intro hshown
    by_contra hnot
    rw [not_or] at hnot
    push Not at hnot
    obtain ⟨⟨c, hc, hlarge⟩, e, he, hmine⟩ := hnot
    obtain rfl : cursor = some c := hc
    obtain ⟨hall, hnone⟩ := above_cast_wrapped accountId h hlarge (hcursor c rfl)
    simp only [hall, hnone, List.take_nil, List.map_nil, List.map_eq_nil_iff,
      List.take_eq_nil_iff, List.filter_eq_nil_iff] at hshown
    rcases hshown with hzero | hfree
    · exact absurd hzero hpos.ne'
    · exact hfree e he (beq_iff_eq.mpr hmine)
  · intro hfits
    rw [above_cast_eq hfits]

/-- **One page in both stores**: with no window, for every limit and every cursor, the page of the
    store with a pool is the page of the in-memory store exactly when the cursor fits an `i64` or
    the account has no rows, and every row of the account is a debit or a credit. -/
theorem ledger_pages_agree_iff (l : List EntryRow) (state : LedgerState) (h : SameEntries l state)
    (accountId : String) (acc : Account) (hacc : getAccount state accountId = some acc)
    (limit : Nat) (cursor : Option Nat) (hcursor : ∀ c ∈ cursor, c < 2 ^ 64) (rows : List EntryRow)
    (hrows : (entriesQuery accountId none none (clampLimit limit) cursor).Answers l (.ok rows)) :
    ledgerDb accountId limit (.ok (some accountId)) (.ok rows) (.ok (sumSigned l accountId "")) =
        ledger state accountId none none limit cursor ↔
      ((∀ c ∈ cursor, c < 2 ^ 63) ∨ ∀ e ∈ l, e.accountId ≠ accountId) ∧
        ∀ e ∈ l, e.accountId = accountId → e.Directed := by
  have hclamp : clampLimit limit ≤ 200 := by
    unfold clampLimit
    omega
  have hmemory := ledger_of_rows h hacc limit cursor
  have hpool := ledgerPageFromDb_lookahead accountId (clampLimit_pos limit)
    (l.filter fun e => e.accountId == accountId &&
      (cursor.map asI64).all fun c => decide (c < (e.sequenceNumber : Int)))
    (sumSigned l accountId "")
  rw [← answers_eq h.increasing hclamp hrows] at hpool
  unfold ledgerDb
  simp only
  rw [hpool, hmemory, ← sumSigned_eq_iff h]
  constructor
  · intro heq
    have hpage := Except.ok.inj heq
    have hbalance : sumSigned l accountId "" = computeBalance state accountId "" :=
      congrArg LedgerPage.finalBalance hpage
    have hshown := congrArg (fun p => p.entries.map (·.record)) hpage
    simp only [runningItems_records] at hshown
    exact ⟨(above_cast_iff h hcursor (clampLimit_pos limit)).mp hshown, hbalance⟩
  · rintro ⟨hcursor, hbalance⟩
    rw [above_cast_eq hcursor, hbalance]

/-! ## 4. The sample run -/

/-- The rows of `entries` after the sample run. -/
def sampleRows : List EntryRow :=
  [ ⟨"018bcfe5-6800-7000-8000-000000000001", "bal1", "uc", "DEBIT", 100, "USD", 1, genesisHash,
      sampleHash1, 1700000000⟩,
    ⟨"018bcfe5-6800-7000-8000-000000000002", "bal1", "op", "CREDIT", 100, "USD", 2, sampleHash1,
      sampleHash2, 1700000000⟩ ]

theorem sampleRows_same : SameEntries sampleRows sampleState where
  entries := by decide +kernel
  numbers := by decide
  amounts := by decide
  size := by decide

/-- The rows the query answers for the account of the sample run, whatever the cursor. -/
def sampleAnswer (cursor : Option Nat) : List EntryRow :=
  (bySequence (sampleRows.filter
    (entriesQuery "uc" none none (clampLimit 50) cursor).selects)).take 51

theorem sampleAnswer_answers (cursor : Option Nat) :
    (entriesQuery "uc" none none (clampLimit 50) cursor).Answers sampleRows
      (.ok (sampleAnswer cursor)) :=
  ⟨⟨rfl, rfl⟩, _, bySequence_ordered _, rfl⟩

/-- The first page of the account of the sample run. -/
theorem ledger_pages_agree_iff_sample :
    ledgerDb "uc" 50 (.ok (some "uc")) (.ok (sampleAnswer none))
        (.ok (sumSigned sampleRows "uc" "")) = ledger sampleState "uc" none none 50 none ↔
      ((∀ c ∈ (none : Option Nat), c < 2 ^ 63) ∨ ∀ e ∈ sampleRows, e.accountId ≠ "uc") ∧
        ∀ e ∈ sampleRows, e.accountId = "uc" → e.Directed := by
  have hknown : (getAccount sampleState "uc").isSome = true := by decide +kernel
  obtain ⟨acc, hacc⟩ := Option.isSome_iff_exists.mp hknown
  exact ledger_pages_agree_iff sampleRows sampleState sampleRows_same "uc" acc hacc 50 none
    (by decide) (sampleAnswer none) (sampleAnswer_answers none)

/-- **A cursor of 2^63 starts again from the first row**: the page of the store with a pool holds
    the entry of the account, the page of the in-memory store nothing. -/
theorem ledger_pages_differ :
    ¬ ∀ (l : List EntryRow) (state : LedgerState) (accountId : String) (acc : Account)
      (limit : Nat) (cursor : Option Nat) (rows : List EntryRow), SameEntries l state →
      getAccount state accountId = some acc → (∀ c ∈ cursor, c < 2 ^ 64) →
      (entriesQuery accountId none none (clampLimit limit) cursor).Answers l (.ok rows) →
      ledgerDb accountId limit (.ok (some accountId)) (.ok rows) (.ok (sumSigned l accountId "")) =
        ledger state accountId none none limit cursor := by
  intro h
  have hknown : (getAccount sampleState "uc").isSome = true := by decide +kernel
  obtain ⟨acc, hacc⟩ := Option.isSome_iff_exists.mp hknown
  have hpages := h sampleRows sampleState "uc" acc 50 (some (2 ^ 63)) _
    sampleRows_same hacc (by decide) (sampleAnswer_answers _)
  rw [ledger_of_rows sampleRows_same hacc] at hpages
  exact absurd hpages (by decide +kernel)

end LedgerAccounting
