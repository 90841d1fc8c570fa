/-
  File:      LedgerAccounting/Memory/Statement.lean
  Subject:   The statement of an account, fetched page by page on the in-memory store.

  `ledger` sorts what it selects by sequence number, and in a reachable state the entries are
  sorted already: the selection is a list with increasing keys that other calls extend at its end,
  and a walk over pages is one of Lib/Paging.lean.

  * `pagination_complete`: following `next_cursor` loses and duplicates nothing.
  * `running_balance_iff`: when the running balances of a page are balances of the account.
-/
import LedgerAccounting.Memory.SnapshotDelta

namespace LedgerAccounting

open Runs

/-! ## 1. The selection of a statement -/

/-- The entries of the account within the window. -/
def inStatement (accountId : String) (since till : Option String) (e : EntryRecord) : Bool :=
  e.accountId == accountId && since.all (· ≤ e.createdAt) && till.all (e.createdAt ≤ ·)

/-- An item of a page without its running balance. -/
def LedgerEntryItem.record (i : LedgerEntryItem) : EntryRecord where
  entryId := i.entryId
  postingId := i.postingId
  accountId := i.accountId
  direction := i.direction
  amount := i.amount
  asset := i.asset
  sequenceNumber := i.sequenceNumber
  prevHash := i.prevHash
  thisHash := i.thisHash
  createdAt := i.createdAt

@[simp] theorem item_record (e : EntryRecord) (b : Int) : (e.item b).record = e := rfl

@[simp] theorem item_sequenceNumber (e : EntryRecord) (b : Int) :
    (e.item b).sequenceNumber = e.sequenceNumber := rfl

@[simp] theorem item_runningBalance (e : EntryRecord) (b : Int) :
    (e.item b).runningBalance = b := rfl

theorem runningItems_records (b : Int) (l : List EntryRecord) :
    (runningItems b l).map (·.record) = l := by
  induction l generalizing b with
  | nil => rfl
  | cons e l ih => rw [runningItems, List.map_cons, ih, item_record]

theorem clampLimit_pos (limit : Nat) : 0 < clampLimit limit := by
  unfold clampLimit
  omega

section Pages

variable {digest : ByteArray → String} {salt : String} {state : LedgerState}
  {accountId : String} {since till : Option String} {limit : Nat} {cursor : Option Nat}

/-- The sequence numbers of the entries of a reachable state increase. -/
theorem reachable_increasing (h : Reachable digest salt state) :
    Paging.Increasing (·.sequenceNumber) state.entries := by
  obtain ⟨recs, hbook⟩ := reachable_bookkeeping h
  exact Paging.increasing_of_numbered hbook.numbers

/-- **The selection of `ledger` is what stands in the window above the cursor**, where the entries
    are in order already. -/
theorem statementEntries_of_increasing (h : Paging.Increasing (·.sequenceNumber) state.entries) :
    statementEntries state accountId since till cursor =
      Paging.after (·.sequenceNumber) cursor
        (state.entries.filter (inStatement accountId since till)) := by
  have hfilter : ((((state.entries.filter fun e => e.accountId == accountId).filter fun e =>
      since.all (· ≤ e.createdAt)).filter fun e => till.all (e.createdAt ≤ ·)).filter fun e =>
      cursor.all (· < e.sequenceNumber)) =
      Paging.after (·.sequenceNumber) cursor
        (state.entries.filter (inStatement accountId since till)) := by
    unfold Paging.after
    simp only [List.filter_filter]
    refine List.filter_congr fun e _ => ?_
    unfold inStatement
    ac_rfl
  unfold statementEntries
  rw [hfilter]
  refine List.mergeSort_of_pairwise ?_
  have hinc := (Paging.Increasing.filter h (inStatement accountId since till)).after cursor
  exact hinc.imp fun hlt => decide_eq_true (Nat.le_of_lt hlt)

theorem statementEntries_eq (h : Reachable digest salt state) :
    statementEntries state accountId since till cursor =
      Paging.after (·.sequenceNumber) cursor
        (state.entries.filter (inStatement accountId since till)) :=
  statementEntries_of_increasing (reachable_increasing h)

/-- What a page of a reachable state holds. -/
theorem ledger_ok (h : Reachable digest salt state) {page : LedgerPage}
    (hpage : ledger state accountId since till limit cursor = .ok page) :
    page.entries = runningItems 0 ((Paging.after (·.sequenceNumber) cursor
        (state.entries.filter (inStatement accountId since till))).take (clampLimit limit)) ∧
      page.nextCursor = Paging.next (·.sequenceNumber) (clampLimit limit)
        (Paging.after (·.sequenceNumber) cursor
          (state.entries.filter (inStatement accountId since till))) ∧
      page.finalBalance = computeBalance state accountId "" := by
  unfold ledger at hpage
  split at hpage
  · cases hpage
  · rw [statementEntries_eq h] at hpage
    cases hpage
    refine ⟨rfl, ?_, rfl⟩
    generalize Paging.after _ cursor _ = rest
    unfold Paging.next
    by_cases hlt : clampLimit limit < rest.length
    · have hpos := clampLimit_pos limit
      have hlast : (rest.take (clampLimit limit)).getLast? = rest[clampLimit limit - 1]? := by
        rw [List.getLast?_eq_getElem?, List.length_take, Nat.min_eq_left hlt.le,
          List.getElem?_take_of_lt (by omega)]
      rw [if_pos hlt, if_pos hlt, hlast]
    · rw [if_neg hlt, if_neg hlt]

end Pages

/-! ## 2. Walks over the pages -/

section Walk

variable (digest : ByteArray → String) (salt : String) (accountId : String)
  (since till : Option String) (limit : Nat)

/-- The pages a client fetches that follows `next_cursor` from `cursor` on. The calls of `between`
    run one list after another between two fetches, and the client gives up when they run out. -/
def walkPages : List (List Call) → LedgerState → Option Nat → List LedgerPage
  | between, state, cursor =>
    match ledger state accountId since till limit cursor with
    | .error _ => []
    | .ok page =>
      page ::
        match page.nextCursor, between with
        | some c, calls :: rest => walkPages rest (runFrom digest salt calls state) (some c)
        | _, _ => []

/-- What the selection holds at the successive fetches. -/
def contents : List (List Call) → LedgerState → List (List EntryRecord)
  | [], state => [state.entries.filter (inStatement accountId since till)]
  | calls :: rest, state =>
    state.entries.filter (inStatement accountId since till) ::
      contents rest (runFrom digest salt calls state)

end Walk

/-- The entries on the pages, in the order they were seen. -/
def seenEntries (pages : List LedgerPage) : List EntryRecord :=
  pages.flatMap fun page => page.entries.map (·.record)

/-- The last page that was fetched has no next cursor. -/
def walkEnded (pages : List LedgerPage) : Bool := pages.getLast?.all (·.nextCursor.isNone)

section Walked

variable {digest : ByteArray → String} {salt : String} {accountId : String}
  {since till : Option String} {limit : Nat} {state : LedgerState}

variable (since till limit) in
theorem ledger_known {acc : Account} (h : getAccount state accountId = some acc)
    (cursor : Option Nat) : ∃ page, ledger state accountId since till limit cursor = .ok page := by
  have hsome : (state.accounts.lookup accountId).isNone = false := by
    rw [show state.accounts.lookup accountId = some acc from h]
    rfl
  unfold ledger
  simp only [hsome, Bool.false_eq_true, if_false, Except.ok.injEq, exists_eq']

/-- The last page, or the one at which the client gives up. -/
theorem walkPages_last {between : List (List Call)} {cursor : Option Nat} {page : LedgerPage}
    (h : ledger state accountId since till limit cursor = .ok page)
    (hend : page.nextCursor = none ∨ between = []) :
    walkPages digest salt accountId since till limit between state cursor = [page] := by
  rw [walkPages.eq_def]
  simp only [h]
  rcases hend with hend | hend
  · simp only [hend]
  · subst hend
    cases page.nextCursor <;> simp only

theorem walkPages_follow {calls : List Call} {rest : List (List Call)} {cursor : Option Nat}
    {page : LedgerPage} {c : Nat} (h : ledger state accountId since till limit cursor = .ok page)
    (hc : page.nextCursor = some c) :
    walkPages digest salt accountId since till limit (calls :: rest) state cursor =
      page :: walkPages digest salt accountId since till limit rest
        (runFrom digest salt calls state) (some c) := by
  rw [walkPages.eq_def]
  simp only [h, hc]

variable (since till limit) in
/-- **A walk over the pages of a known account is a walk over its selection.** -/
theorem walkPages_walk (hr : Reachable digest salt state) {acc : Account}
    (hacc : getAccount state accountId = some acc) (between : List (List Call))
    (cursor : Option Nat) :
    walkPages digest salt accountId since till limit between state cursor ≠ [] ∧
      seenEntries (walkPages digest salt accountId since till limit between state cursor) =
        Paging.walk (·.sequenceNumber) (clampLimit limit) cursor
          (contents digest salt accountId since till between state) ∧
      walkEnded (walkPages digest salt accountId since till limit between state cursor) =
        Paging.ends (·.sequenceNumber) (clampLimit limit) cursor
          (contents digest salt accountId since till between state) := by
  induction between generalizing state cursor with
  | nil =>
    obtain ⟨page, hpage⟩ := ledger_known since till limit hacc cursor
    obtain ⟨hentries, hnext, _⟩ := ledger_ok hr hpage
    rw [walkPages_last hpage (Or.inr rfl), contents, Paging.walk_cons, Paging.ends_cons, ← hnext]
    refine ⟨List.cons_ne_nil _ _, ?_, ?_⟩
    · cases page.nextCursor <;>
        simp [seenEntries, hentries, runningItems_records, Paging.walk]
    · cases hc : page.nextCursor <;> simp [walkEnded, hc, Paging.ends]
  | cons calls rest ih =>
    obtain ⟨page, hpage⟩ := ledger_known since till limit hacc cursor
    obtain ⟨hentries, hnext, _⟩ := ledger_ok hr hpage
    rw [contents, Paging.walk_cons, Paging.ends_cons, ← hnext]
    cases hc : page.nextCursor with
    | none =>
      rw [walkPages_last hpage (Or.inl hc)]
      refine ⟨List.cons_ne_nil _ _, ?_, ?_⟩
      · simp [seenEntries, hentries, runningItems_records]
      · simp [walkEnded, hc]
    | some c =>
      obtain ⟨hne, hseen, hended⟩ := ih (hr.runFrom calls) (runFrom_account calls hacc) (some c)
      rw [walkPages_follow hpage hc]
      refine ⟨List.cons_ne_nil _ _, ?_, ?_⟩
      · rw [seenEntries, List.flatMap_cons, hentries, runningItems_records]
        exact congrArg (_ ++ ·) hseen
      · rw [walkEnded, List.getLast?_cons_of_ne_nil hne]
        exact hended

variable (accountId since till) in
/-- At every fetch the selection is in order, and it is the front of the one at the next. -/
theorem contents_growing (hr : Reachable digest salt state) (between : List (List Call)) :
    (∀ l ∈ contents digest salt accountId since till between state,
      Paging.Increasing (·.sequenceNumber) l ∧
        l <+: (runFrom digest salt between.flatten state).entries.filter
          (inStatement accountId since till)) ∧
    (contents digest salt accountId since till between state).IsChain (· <+: ·) := by
  have hinc : ∀ s, Reachable digest salt s → Paging.Increasing (·.sequenceNumber)
      (s.entries.filter (inStatement accountId since till)) :=
    fun s hs => Paging.Increasing.filter (reachable_increasing hs) _
  induction between generalizing state with
  | nil =>
    unfold contents
    simp only [List.mem_singleton, forall_eq]
    exact ⟨⟨hinc state hr, List.prefix_rfl⟩, List.isChain_singleton _⟩
  | cons calls rest ih =>
    obtain ⟨hall, hchain⟩ := ih (hr.runFrom calls)
    have hlater : runFrom digest salt (calls :: rest).flatten state =
        runFrom digest salt rest.flatten (runFrom digest salt calls state) := by
      rw [List.flatten_cons]
      exact run_append _ _ _ _
    unfold contents
    rw [List.forall_mem_cons, hlater]
    refine ⟨⟨⟨hinc state hr, ?_⟩, hall⟩, ?_⟩
    · exact ((runFrom_entries calls state).trans (runFrom_entries rest.flatten _)).filter _
    · cases rest with
      | nil =>
        unfold contents at hchain ⊢
        exact List.isChain_pair.mpr ((runFrom_entries calls state).filter _)
      | cons calls' rest =>
        unfold contents at hchain ⊢
        exact List.isChain_cons_cons.mpr ⟨(runFrom_entries calls state).filter _, hchain⟩

/-- The contents of a store at rest are the same at every fetch. -/
theorem contents_still (n : Nat) :
    contents digest salt accountId since till (List.replicate n []) state =
      List.replicate (n + 1) (state.entries.filter (inStatement accountId since till)) := by
  induction n with
  | zero => rfl
  | succ n ih =>
    rw [List.replicate_succ, List.replicate_succ, ← ih]
    rfl

variable (since till) in
/-- Nothing is booked on an account that does not exist. -/
theorem unknown_unbooked (hr : Reachable digest salt state)
    (hacc : getAccount state accountId = none) :
    state.entries.filter (inStatement accountId since till) = [] := by
  refine List.filter_eq_nil_iff.mpr fun e he hin => ?_
  unfold inStatement at hin
  simp only [Bool.and_eq_true] at hin
  obtain ⟨acc, _, _, hlookup, _⟩ := (reachable_checked hr e he).account
  rw [eq_of_beq hin.1.1, show state.accounts.lookup accountId = none from hacc] at hlookup
  cases hlookup

theorem walkPages_unknown (hacc : getAccount state accountId = none)
    (between : List (List Call)) (cursor : Option Nat) :
    walkPages digest salt accountId since till limit between state cursor = [] := by
  have hnone : (state.accounts.lookup accountId).isNone = true := by
    rw [show state.accounts.lookup accountId = none from hacc]
    rfl
  rw [walkPages.eq_def]
  simp only [ledger, hnone, if_true]

end Walked

/-- Over a state that stays as it is the walk ends, and has seen the statement. -/
theorem walkPages_still {digest : ByteArray → String} {salt accountId : String}
    (since till : Option String) (limit : Nat) {state : LedgerState}
    (hr : Reachable digest salt state) {acc : Account}
    (hacc : getAccount state accountId = some acc) {n : Nat} (hn : state.entries.length ≤ n) :
    let still := walkPages digest salt accountId since till limit (List.replicate n []) state none
    walkEnded still = true ∧
      seenEntries still = state.entries.filter (inStatement accountId since till) := by
  intro still
  obtain ⟨_, hseen, hended⟩ := walkPages_walk since till limit hr hacc (List.replicate n []) none
  have hall : Paging.after (·.sequenceNumber) none
      (state.entries.filter (inStatement accountId since till)) =
      state.entries.filter (inStatement accountId since till) :=
    List.filter_eq_self.mpr fun _ _ => rfl
  have hlen := List.length_filter_le (inStatement accountId since till) state.entries
  obtain ⟨hends, hwalk⟩ := Paging.walk_still (clampLimit_pos limit)
    (Paging.Increasing.filter (reachable_increasing hr) (inStatement accountId since till))
    (n + 1) none (by rw [hall]; omega)
  rw [contents_still] at hseen hended
  exact ⟨hended.trans hends, hseen.trans (hwalk.trans hall)⟩

/-- **Following `next_cursor` from the start loses and duplicates nothing**, from every reachable
    state, for every account, window and limit, whatever calls run between the fetches. What is
    seen is in increasing order, matches, and was there; when the walk has ended, everything that
    matched at the first fetch has been seen. With no calls in between the walk ends, and what it
    has seen is the selection. -/
theorem pagination_complete (digest : ByteArray → String) (salt : String) (calls : List Call)
    (accountId : String) (since till : Option String) (limit : Nat) (between : List (List Call)) :
    let state := runNew digest salt calls
    let pages := walkPages digest salt accountId since till limit between state none
    (seenEntries pages).Pairwise (fun a b => a.sequenceNumber < b.sequenceNumber) ∧
    (∀ e ∈ seenEntries pages, inStatement accountId since till e = true ∧
      e ∈ (runFrom digest salt between.flatten state).entries) ∧
    (walkEnded pages = true → ∀ e ∈ state.entries, inStatement accountId since till e = true →
      e ∈ seenEntries pages) ∧
    ∃ enough, ∀ n, enough ≤ n →
      let still := walkPages digest salt accountId since till limit (List.replicate n []) state none
      walkEnded still = true ∧
        seenEntries still = state.entries.filter (inStatement accountId since till) := by
  intro state pages
  have hr : Reachable digest salt state := ⟨calls, rfl⟩
  clear_value state
  cases hacc : getAccount state accountId with
  | none =>
    have hpages : pages = [] := walkPages_unknown hacc _ _
    have hnone := unknown_unbooked since till hr hacc
    rw [hpages]
    refine ⟨List.Pairwise.nil, fun e he => absurd he List.not_mem_nil, fun _ e he hin => ?_, 0,
      fun n _ => ?_⟩
    · have hmem := List.mem_filter.mpr ⟨he, hin⟩
      rw [hnone] at hmem
      cases hmem
    · intro still
      have hstill : still = [] := walkPages_unknown hacc _ _
      rw [hstill, hnone]
      exact ⟨rfl, rfl⟩
  | some acc =>
    obtain ⟨_, hseen, hended⟩ := walkPages_walk since till limit hr hacc between none
    obtain ⟨hheld, hchain⟩ := contents_growing accountId since till hr between
    have hinc := fun l hl => (hheld l hl).1
    refine ⟨?_, fun e he => ?_, fun hend e he hin => ?_, state.entries.length, fun n hn => ?_⟩
    · rw [hseen]
      exact Paging.walk_increasing hinc
    · rw [hseen] at he
      obtain ⟨_, l, hl, hel⟩ := Paging.walk_mem hinc he
      have hmem := List.mem_filter.mp ((hheld l hl).2.subset hel)
      exact ⟨hmem.2, hmem.1⟩
    · rw [hseen]
      rw [hended] at hend
      have hmem : e ∈ Paging.after (·.sequenceNumber) none
          (state.entries.filter (inStatement accountId since till)) :=
        Paging.mem_after.mpr ⟨List.mem_filter.mpr ⟨he, hin⟩, fun _ hc => by cases hc⟩
      cases between with
      | nil => exact Paging.walk_complete (clampLimit_pos limit) hinc hchain hend e hmem
      | cons _ _ => exact Paging.walk_complete (clampLimit_pos limit) hinc hchain hend e hmem
    · exact walkPages_still since till limit hr hacc hn

/-! ## 3. Running balances -/

/-- The balance of the account, over all assets, after its entry with the number `n`. -/
def statementBalance (state : LedgerState) (accountId : String) (n : Nat) : Int :=
  ((state.entries.filter fun e => e.accountId == accountId &&
    decide (e.sequenceNumber ≤ n)).map (·.signed)).sum

/-- What the entries of the account up to the number `n` come to that the window or the cursor
    leaves out. -/
def leftOut (state : LedgerState) (accountId : String) (since till : Option String)
    (cursor : Option Nat) (n : Nat) : Int :=
  ((state.entries.filter fun e => e.accountId == accountId && decide (e.sequenceNumber ≤ n) &&
    !(inStatement accountId since till e && cursor.all fun c => decide (c < e.sequenceNumber))).map
      (·.signed)).sum

/-- Every running balance of the page is the balance of the account after its entry, and the last
    entry of the account, where it is on the page, shows the final balance. -/
def RunningRight (state : LedgerState) (accountId : String) (page : LedgerPage) : Prop :=
  (∀ i ∈ page.entries, i.runningBalance = statementBalance state accountId i.sequenceNumber) ∧
  ∀ i ∈ page.entries,
    ((state.entries.filter fun e => e.accountId == accountId).getLast?).map (·.sequenceNumber) =
      some i.sequenceNumber → i.runningBalance = page.finalBalance

/-- An item of the scan shows what the entries up to its own come to. -/
theorem mem_runningItems {b : Int} {l : List EntryRecord} {i : LedgerEntryItem}
    (h : i ∈ runningItems b l) :
    ∃ front e rest, l = front ++ e :: rest ∧
      i = e.item (b + ((front ++ [e]).map (·.signed)).sum) := by
  induction l generalizing b with
  | nil => cases h
  | cons e l ih =>
    rcases List.mem_cons.mp h with rfl | h
    · exact ⟨[], e, l, rfl, by simp⟩
    · obtain ⟨front, e', rest, rfl, rfl⟩ := ih h
      exact ⟨e :: front, e', rest, rfl, by simp [add_assoc]⟩

theorem runningItems_mem (b : Int) (front : List EntryRecord) (e : EntryRecord)
    (rest : List EntryRecord) :
    e.item (b + ((front ++ [e]).map (·.signed)).sum) ∈ runningItems b (front ++ e :: rest) := by
  induction front generalizing b with
  | nil => simp [runningItems]
  | cons e' front ih =>
    refine List.mem_cons_of_mem _ ?_
    have hitem := ih (b + e'.signed)
    simpa [add_assoc] using hitem

section Running

variable {digest : ByteArray → String} {salt : String} {state : LedgerState}
  {accountId : String} {since till : Option String} {limit : Nat} {cursor : Option Nat}

variable (accountId since till cursor) in
/-- The balance after an entry is what the selection holds up to it and what it leaves out. -/
theorem statementBalance_split (state : LedgerState) (n : Nat) :
    statementBalance state accountId n =
      (((Paging.after (·.sequenceNumber) cursor
        (state.entries.filter (inStatement accountId since till))).filter fun e =>
          decide (e.sequenceNumber ≤ n)).map (·.signed)).sum +
      leftOut state accountId since till cursor n := by
  unfold statementBalance leftOut
  rw [signed_split fun e => inStatement accountId since till e &&
    cursor.all fun c => decide (c < e.sequenceNumber)]
  congr 3
  · unfold Paging.after
    simp only [List.filter_filter]
    refine List.filter_congr fun e _ => ?_
    unfold inStatement
    cases e.accountId == accountId <;> simp [Bool.and_comm]
  · rw [List.filter_filter]
    refine List.filter_congr fun e _ => ?_
    ac_rfl

/-- **An item shows the balance after its entry less what the page leaves out.** -/
theorem item_running (hr : Reachable digest salt state) {page : LedgerPage}
    (hpage : ledger state accountId since till limit cursor = .ok page) {i : LedgerEntryItem}
    (hi : i ∈ page.entries) :
    i.runningBalance = statementBalance state accountId i.sequenceNumber -
      leftOut state accountId since till cursor i.sequenceNumber := by
  obtain ⟨hentries, _, _⟩ := ledger_ok hr hpage
  rw [hentries] at hi
  obtain ⟨front, e, rest, hsplit, rfl⟩ := mem_runningItems hi
  rw [statementBalance_split accountId since till cursor state]
  have hinc := Paging.Increasing.after (Paging.Increasing.filter (reachable_increasing hr)
    (inStatement accountId since till)) cursor
  have hwhole := List.take_append_drop (clampLimit limit)
    (Paging.after (·.sequenceNumber) cursor
      (state.entries.filter (inStatement accountId since till)))
  rw [hsplit, List.append_assoc, List.cons_append] at hwhole
  rw [← hwhole] at hinc ⊢
  have hupTo := Paging.filter_upTo hinc
  rw [item_sequenceNumber, item_runningBalance, hupTo]
  omega

/-- The last entry of the account has the balance of the account. -/
theorem statementBalance_last (hr : Reachable digest salt state) {n : Nat}
    (hn : ((state.entries.filter fun e => e.accountId == accountId).getLast?).map
      (·.sequenceNumber) = some n) :
    statementBalance state accountId n = computeBalance state accountId "" := by
  obtain ⟨last, hlast, rfl⟩ := Option.map_eq_some_iff.mp hn
  obtain ⟨front, hfront⟩ := List.getLast?_eq_some_iff.mp hlast
  have hinc := Paging.Increasing.filter (reachable_increasing hr) fun e => e.accountId == accountId
  rw [hfront] at hinc
  have hupTo := Paging.filter_upTo hinc
  have hall : (state.entries.filter fun e => e.accountId == accountId &&
      decide (e.sequenceNumber ≤ last.sequenceNumber)) =
      state.entries.filter fun e => e.accountId == accountId := by
    rw [← hfront, List.filter_filter] at hupTo
    rw [← hupTo]
    exact List.filter_congr fun e _ => Bool.and_comm _ _
  unfold statementBalance
  rw [computeBalance_signed, matching_all, hall]

end Running

/-- **When the running balances of a page are balances of the account**, after every run, for every
    account, window, limit and cursor: they are, and the account's last entry shows the final
    balance, if and only if before each of the first `limit` entries that match what the window and
    the cursor leave out comes to nothing. -/
theorem running_balance_iff (digest : ByteArray → String) (salt : String) (calls : List Call)
    (accountId : String) (since till : Option String) (limit : Nat) (cursor : Option Nat)
    (page : LedgerPage)
    (hpage : ledger (runNew digest salt calls) accountId since till limit cursor = .ok page) :
    RunningRight (runNew digest salt calls) accountId page ↔
      ∀ e ∈ (statementEntries (runNew digest salt calls) accountId since till cursor).take
          (clampLimit limit),
        leftOut (runNew digest salt calls) accountId since till cursor e.sequenceNumber = 0 := by
  have hr : Reachable digest salt (runNew digest salt calls) := ⟨calls, rfl⟩
  generalize runNew digest salt calls = state at hr hpage ⊢
  obtain ⟨hentries, _, hfinal⟩ := ledger_ok hr hpage
  rw [statementEntries_eq hr]
  constructor
  · intro hright e he
    obtain ⟨front, rest, hsplit⟩ := List.append_of_mem he
    have hmem := runningItems_mem 0 front e rest
    rw [← hsplit, ← hentries] at hmem
    have hshown := item_running hr hpage hmem
    rw [hright.1 _ hmem, item_sequenceNumber] at hshown
    omega
  · intro hnothing
    have hright : ∀ i ∈ page.entries,
        i.runningBalance = statementBalance state accountId i.sequenceNumber := by
      intro i hi
      rw [item_running hr hpage hi]
      rw [hentries] at hi
      obtain ⟨front, e, rest, hsplit, rfl⟩ := mem_runningItems hi
      have he := hnothing e (by rw [hsplit]; exact List.mem_append_right _ List.mem_cons_self)
      rw [item_sequenceNumber, he, sub_zero]
    refine ⟨hright, fun i hi hlast => ?_⟩
    rw [hright i hi, statementBalance_last hr hlast, hfinal]

/-! Two postings of 100 USD to one account, and its statement in pages of one entry. -/

def statementCalls : List Call :=
  sampleCalls ++ [.post { sampleRequest with postingId := "bal2" } sampleSupply]

/-- **The second page starts its running balance at zero**: it shows 100 where the balance is
    200. -/
theorem second_page_restarts :
    ∃ page, ledger (runNew sampleDigest sampleSalt statementCalls) "uc" none none 1 (some 1) =
        .ok page ∧
      page.entries.map (fun i => (i.sequenceNumber, i.runningBalance)) = [(3, 100)] ∧
      page.finalBalance = 200 ∧
      ¬ RunningRight (runNew sampleDigest sampleSalt statementCalls) "uc" page := by
  have hr : Reachable sampleDigest sampleSalt (runNew sampleDigest sampleSalt statementCalls) :=
    ⟨_, rfl⟩
  obtain ⟨acc, hacc⟩ : ∃ acc,
      getAccount (runNew sampleDigest sampleSalt statementCalls) "uc" = some acc := ⟨_, rfl⟩
  obtain ⟨page, hpage⟩ := ledger_known none none 1 hacc (some 1)
  obtain ⟨hentries, _, hfinal⟩ := ledger_ok hr hpage
  have hshown : page.entries.map (fun i => (i.sequenceNumber, i.runningBalance)) = [(3, 100)] := by
    rw [hentries]
    decide +kernel
  have hbalance :
      statementBalance (runNew sampleDigest sampleSalt statementCalls) "uc" 3 = 200 := by
    decide +kernel
  refine ⟨page, hpage, hshown, ?_, fun hright => ?_⟩
  · rw [hfinal]
    decide +kernel
  · obtain ⟨i, l, hitems, hi, _⟩ := List.map_eq_cons_iff.mp hshown
    have hone := hright.1 i (by rw [hitems]; exact List.mem_cons_self)
    rw [(Prod.mk.inj hi).1, (Prod.mk.inj hi).2, hbalance] at hone
    omega

theorem running_balance_iff_sample :
    ∃ page, ledger (runNew sampleDigest sampleSalt statementCalls) "uc" none none 1 (some 1) =
        .ok page ∧
      (RunningRight (runNew sampleDigest sampleSalt statementCalls) "uc" page ↔
        ∀ e ∈ (statementEntries (runNew sampleDigest sampleSalt statementCalls) "uc" none none
            (some 1)).take (clampLimit 1),
          leftOut (runNew sampleDigest sampleSalt statementCalls) "uc" none none (some 1)
            e.sequenceNumber = 0) := by
  obtain ⟨acc, hacc⟩ : ∃ acc,
      getAccount (runNew sampleDigest sampleSalt statementCalls) "uc" = some acc := ⟨_, rfl⟩
  obtain ⟨page, hpage⟩ := ledger_known none none 1 hacc (some 1)
  exact ⟨page, hpage, running_balance_iff sampleDigest sampleSalt statementCalls "uc" none none 1
    (some 1) page hpage⟩

end LedgerAccounting
