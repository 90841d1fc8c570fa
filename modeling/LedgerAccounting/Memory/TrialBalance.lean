/-
  File:      LedgerAccounting/Memory/TrialBalance.lean
  Subject:   The books of the in-memory store balance: every reachable state refines a journal of
             balanced transactions (Lib/DoubleEntry.lean) booked on existing accounts.

  * `reachable_books`: the entries of a reachable state are those of a journal of well-booked
    postings, and every one of them is booked on an account of the state.
  * `books_balance`: both sides of every posting, the trial balance and the segregation of the
    custodial accounts.
-/
import LedgerAccounting.Run

namespace LedgerAccounting

open Runs
open DoubleEntry (Balanced Transaction journalLines)

/-! ## 1. Well-booked postings -/

/-- What the checks of `post` leave in a recorded posting. -/
structure WellBooked (rec : PostingRecord) : Prop where
  nonempty : rec.entries ≠ []
  positive : ∀ e ∈ rec.entries, 0 < e.amount
  direction : ∀ e ∈ rec.entries, ∃ d : Direction, e.direction = d.text
  balanced : Balanced (rec.entries.map (·.line))

/-- A recorded posting with the proof that it is well booked. -/
abbrev BookedPosting := {rec : PostingRecord // WellBooked rec}

def BookedPosting.transaction (b : BookedPosting) : Transaction String String Int where
  lines := b.1.entries.map (·.line)
  balanced := b.2.balanced

section Sides

variable {e : EntryRecord}

theorem signed_pos_iff (hn : 0 < e.amount) (hd : ∃ d : Direction, e.direction = d.text) :
    0 < e.signed ↔ e.direction = "DEBIT" := by
  obtain ⟨d, hd⟩ := hd
  unfold EntryRecord.signed
  rw [hd]
  cases d
  · simpa [Direction.text] using hn
  · simp [Direction.text]

theorem signed_neg_iff (hn : 0 < e.amount) (hd : ∃ d : Direction, e.direction = d.text) :
    e.signed < 0 ↔ e.direction = "CREDIT" := by
  obtain ⟨d, hd⟩ := hd
  unfold EntryRecord.signed
  rw [hd]
  cases d
  · simp [Direction.text]
  · simpa [Direction.text] using hn

end Sides

/-- The amounts booked in one direction and one asset, in total. -/
def sideTotal (entries : List EntryRecord) (direction asset : String) : Nat :=
  ((entries.filter fun e => e.asset == asset && e.direction == direction).map (·.amount)).sum

/-- The difference of the two totals is the booked value. -/
theorem sideTotal_diff {entries : List EntryRecord}
    (hdir : ∀ e ∈ entries, ∃ d : Direction, e.direction = d.text) (asset : String) :
    (sideTotal entries "DEBIT" asset : Int) - sideTotal entries "CREDIT" asset =
      DoubleEntry.value (fun l => decide (l.asset = asset)) (entries.map (·.line)) := by
  unfold sideTotal
  induction entries with
  | nil => rfl
  | cons e l ih =>
    rw [List.forall_mem_cons] at hdir
    obtain ⟨d, hd⟩ := hdir.1
    rw [List.map_cons, DoubleEntry.value_cons, ← ih hdir.2, List.filter_cons, List.filter_cons]
    by_cases ha : e.asset = asset
    · cases d <;> simp [EntryRecord.line, EntryRecord.signed, ha, hd, Direction.text] <;> omega
    · simp [EntryRecord.line, ha]

section WellBooked

variable {rec : PostingRecord}

theorem WellBooked.signed_ne_zero (h : WellBooked rec) :
    ∀ l ∈ rec.entries.map (·.line), l.value ≠ 0 := by
  intro l hl
  obtain ⟨e, he, rfl⟩ := List.mem_map.mp hl
  obtain ⟨d, hd⟩ := h.direction e he
  have hn := h.positive e he
  show e.signed ≠ 0
  unfold EntryRecord.signed
  rw [hd]
  cases d <;> simp [Direction.text] <;> omega

/-- **Debits equal credits** in every asset of a well-booked posting. -/
theorem WellBooked.totals_eq (h : WellBooked rec) (asset : String) :
    sideTotal rec.entries "DEBIT" asset = sideTotal rec.entries "CREDIT" asset := by
  have hdiff := sideTotal_diff h.direction asset
  rw [h.balanced asset] at hdiff
  omega

/-- **Both sides are booked** in every asset a well-booked posting mentions. -/
theorem WellBooked.both_sides (h : WellBooked rec) {e : EntryRecord} (he : e ∈ rec.entries) :
    (∃ d ∈ rec.entries, d.asset = e.asset ∧ d.direction = "DEBIT") ∧
      ∃ c ∈ rec.entries, c.asset = e.asset ∧ c.direction = "CREDIT" := by
  obtain ⟨⟨dl, hdl, hda, hdv⟩, cl, hcl, hca, hcv⟩ :=
    h.balanced.both_sides h.signed_ne_zero (List.mem_map_of_mem he)
  obtain ⟨d, hd, rfl⟩ := List.mem_map.mp hdl
  obtain ⟨c, hc, rfl⟩ := List.mem_map.mp hcl
  exact ⟨⟨d, hd, hda, (signed_pos_iff (h.positive d hd) (h.direction d hd)).mp hdv⟩,
    c, hc, hca, (signed_neg_iff (h.positive c hc) (h.direction c hc)).mp hcv⟩

/-- A well-booked posting has at least two entries: a debit and a credit. -/
theorem WellBooked.two_le (h : WellBooked rec) : 2 ≤ rec.entries.length := by
  obtain ⟨e, he⟩ := List.exists_mem_of_ne_nil _ h.nonempty
  obtain ⟨⟨d, hd, _, hdd⟩, c, hc, _, hcd⟩ := h.both_sides he
  have hne : d ≠ c := by
    rintro rfl
    rw [hdd] at hcd
    exact absurd hcd (by decide)
  have hsub : [d, c] ⊆ rec.entries := by simp [hd, hc]
  exact (List.subperm_of_subset (by simp [hne]) hsub).length_le

end WellBooked

/-! ## 2. The checks of `post` book well -/

section Recorded

variable {digest : ByteArray → String} {salt now postingId : String}

theorem MadeFrom.line {p : ParsedEntry} {e : EntryRecord}
    (h : MadeFrom digest salt now postingId p e) : e.line = p.line := by
  obtain ⟨prevHash, entryId, seq, rfl⟩ := h
  unfold EntryRecord.line ParsedEntry.line EntryRecord.signed ParsedEntry.signed makeEntry
  cases p.dir <;> rfl

theorem made_lines {parsed : List ParsedEntry} {l : List EntryRecord}
    (h : List.Forall₂ (MadeFrom digest salt now postingId) parsed l) :
    l.map (·.line) = parsed.map (·.line) := by
  induction h with
  | nil => rfl
  | cons hm _ ih => rw [List.map_cons, List.map_cons, ih, hm.line]

/-- **The record of an accepted posting is well booked.** -/
theorem made_wellBooked (rec : PostingRecord) {req : PostingRequest} {parsed : List ParsedEntry}
    (h : ValidRequest req parsed)
    (hm : List.Forall₂ (MadeFrom digest salt now postingId) parsed rec.entries) :
    WellBooked rec where
  nonempty := by
    intro hnil
    rw [hnil] at hm
    have hlen := h.parses.length_eq.trans hm.length_eq
    exact h.nonempty (List.length_eq_zero_iff.mp hlen)
  positive := by
    intro e he
    obtain ⟨p, hp, _, _, _, rfl⟩ := forall₂_mem_right hm he
    exact (h.amount p hp).1
  direction := by
    intro e he
    obtain ⟨p, _, _, _, _, rfl⟩ := forall₂_mem_right hm he
    exact ⟨p.dir, rfl⟩
  balanced := by
    rw [made_lines hm]
    exact parsed_balanced h

end Recorded

/-! ## 3. The journal of a reachable state -/

/-- The state holds exactly the entries of the journal, records only its postings, and books them
    on accounts it has. -/
structure Books (state : LedgerState) (journal : List BookedPosting) : Prop where
  entries : state.entries = journal.flatMap (·.1.entries)
  recorded : ∀ id rec, state.postings.lookup id = some rec → ∃ b ∈ journal, b.1 = rec
  booked : ∀ e ∈ state.entries, e.accountId ∈ state.accounts

section Journal

variable {digest : ByteArray → String} {salt : String}

theorem books_new : Books .new [] where
  entries := rfl
  recorded _ _ h := by cases h
  booked _ h := absurd h List.not_mem_nil

/-- A transition keeps the journal, or appends the posting it records. -/
theorem books_transition {s s' : LedgerState} {journal : List BookedPosting} (h : Books s journal)
    (ht : Transition digest salt s s') : ∃ journal', Books s' journal' := by
  cases ht with
  | keep => exact ⟨journal, h⟩
  | snapshots => exact ⟨journal, h.entries, h.recorded, h.booked⟩
  | account req r acc _ _ _ _ _ =>
    refine ⟨journal, h.entries, h.recorded, fun e he => ?_⟩
    exact (AList.mem_insert _).mpr (Or.inr (h.booked e he))
  | posting sup req parsed accepted =>
    have hspec := createEntries_spec digest salt sup s req.postingId parsed
    have hvalid := accepted.valid
    have hself := record_lookup_self s sup req
      (createEntries digest salt sup s req.postingId parsed)
    generalize createEntries digest salt sup s req.postingId parsed = l at hspec hself
    refine ⟨journal ++ [⟨_, made_wellBooked ⟨req.postingId, req.refTxId, req.memo, "POSTED",
      l.prevHash, l.createdEntries, sup.nowIso 0⟩ hvalid hspec.made⟩], ?_, ?_, ?_⟩
    · rw [record_entries, h.entries, List.flatMap_append]
      simp
    · intro id rec hrec
      by_cases hid : id = req.postingId
      · rw [hid, hself] at hrec
        exact ⟨_, List.mem_append_right _ List.mem_cons_self, Option.some.inj hrec⟩
      · rw [record_lookup_ne sup req l hid] at hrec
        obtain ⟨b, hb, hbr⟩ := h.recorded id rec hrec
        exact ⟨b, List.mem_append_left _ hb, hbr⟩
    · intro e he
      rcases List.mem_append.mp he with he | he
      · exact h.booked e he
      · obtain ⟨p, hp, _, _, _, rfl⟩ := forall₂_mem_right hspec.made he
        obtain ⟨acc, _, hacc, _⟩ := (checkAccounts_ok_iff s parsed).mp accepted.accounts p hp
        exact AList.lookup_isSome.mp (Option.isSome_of_mem hacc)

/-- **Every reachable state refines a journal of balanced transactions.** -/
theorem reachable_books {s : LedgerState} (h : Reachable digest salt s) :
    ∃ journal, Books s journal :=
  reachable_invariant (I := fun s => ∃ journal, Books s journal) ⟨[], books_new⟩
    (fun _ _ hs ht => books_transition hs.choose_spec ht) h

end Journal

theorem Books.lines {state : LedgerState} {journal : List BookedPosting} (h : Books state journal) :
    state.entries.map (·.line) = journalLines (journal.map (·.transaction)) := by
  unfold journalLines
  rw [h.entries, List.map_flatMap, List.flatMap_map]
  rfl

theorem Books.balanced {state : LedgerState} {journal : List BookedPosting}
    (h : Books state journal) : Balanced (state.entries.map (·.line)) := by
  rw [h.lines]
  exact DoubleEntry.journal_balanced _

/-! ## 4. Sums over the accounts -/

section Sums

variable (state : LedgerState)

/-- The accounts of a kind, by id. -/
def accountsOf (kind : Account → Bool) : List String :=
  (state.accounts.entries.filter fun p => kind p.2).map (·.1)

/-- The balances `balance` answers for the accounts of a kind. -/
def balances (asset : String) (kind : Account → Bool) : List Int :=
  (accountsOf state kind).filterMap fun a => balance state a asset

theorem accountsOf_nodup (kind : Account → Bool) : (accountsOf state kind).Nodup := by
  have hsub : (accountsOf state kind).Sublist state.accounts.keys :=
    List.Sublist.map _ List.filter_sublist
  exact hsub.nodup state.accounts.keys_nodup

theorem mem_accountsOf (kind : Account → Bool) (a : String) :
    a ∈ accountsOf state kind ↔ ∃ acc, state.accounts.lookup a = some acc ∧ kind acc = true := by
  unfold accountsOf
  simp only [List.mem_map, List.mem_filter]
  constructor
  · rintro ⟨⟨b, acc⟩, ⟨hmem, hk⟩, rfl⟩
    exact ⟨acc, AList.mem_lookup_iff.mpr hmem, hk⟩
  · rintro ⟨acc, hl, hk⟩
    exact ⟨⟨a, acc⟩, ⟨AList.mem_lookup_iff.mp hl, hk⟩, rfl⟩

/-- The balances of a kind of accounts, summed over the set of these accounts. -/
theorem balances_sum (asset : String) (kind : Account → Bool) :
    (balances state asset kind).sum = ∑ a ∈ (accountsOf state kind).toFinset,
      DoubleEntry.balance (state.entries.map (·.line)) a (selects asset) := by
  have hall : ∀ a ∈ accountsOf state kind,
      balance state a asset = some (computeBalance state a asset) := by
    intro a ha
    obtain ⟨acc, hacc, _⟩ := (mem_accountsOf state kind a).mp ha
    simp [balance, hacc]
  unfold balances
  rw [List.filterMap_congr hall, List.filterMap_eq_map',
    List.sum_toFinset _ (accountsOf_nodup state kind)]
  simp only [computeBalance_eq]

/-- A loop that adds up what it selects. -/
theorem foldl_select {α : Type*} (sel : α → Bool) (f : α → Int) (l : List α) (z : Int) :
    l.foldl (fun total x => if sel x then total + f x else total) z =
      z + ((l.filter sel).map f).sum := by
  induction l generalizing z with
  | nil => simp
  | cons x l ih =>
    rw [List.foldl_cons, ih, List.filter_cons]
    by_cases hx : sel x = true
    · simp [hx, add_assoc]
    · simp [hx]

/-- `user_custodial_sum` adds up the balances of the custodial accounts. -/
theorem userCustodialSum_eq (asset : String) :
    userCustodialSum state asset =
      (balances state asset fun acc => acc.typeName == "user_custodial").sum := by
  rw [balances_sum, List.sum_toFinset _ (accountsOf_nodup state _)]
  unfold userCustodialSum accountsOf
  rw [foldl_select, zero_add]
  simp only [← computeBalance_eq, List.map_map, Function.comp_def]

end Sums

/-! ## 5. The books balance -/

/-- The accounts that are not of a kind are the other accounts. -/
theorem accountsOf_not (state : LedgerState) (kind : Account → Bool) :
    (accountsOf state fun acc => !kind acc).toFinset =
      (accountsOf state fun _ => true).toFinset.filter (· ∉ accountsOf state kind) := by
  ext a
  simp only [List.mem_toFinset, Finset.mem_filter, mem_accountsOf]
  constructor
  · rintro ⟨acc, hl, hk⟩
    refine ⟨⟨acc, hl, trivial⟩, ?_⟩
    rintro ⟨acc', hl', hk'⟩
    rw [hl] at hl'
    cases hl'
    simp [hk'] at hk
  · rintro ⟨⟨acc, hl, _⟩, hno⟩
    refine ⟨acc, hl, ?_⟩
    by_contra hk
    exact hno ⟨acc, hl, by simpa using hk⟩

theorem accountsOf_filter (state : LedgerState) (kind : Account → Bool) :
    (accountsOf state kind).toFinset =
      (accountsOf state fun _ => true).toFinset.filter (· ∈ accountsOf state kind) := by
  ext a
  simp only [List.mem_toFinset, Finset.mem_filter, mem_accountsOf]
  exact ⟨fun ⟨acc, hl, hk⟩ => ⟨⟨acc, hl, trivial⟩, acc, hl, hk⟩, And.right⟩

/-- **The books of every run balance**: every recorded posting books both sides of each asset it
    mentions, with equal totals; the balances of all accounts sum to zero, in each asset and over
    all assets; and the custodial accounts hold what the other accounts owe. -/
theorem books_balance (digest : ByteArray → String) (salt : String) (calls : List Call)
    (asset : String) :
    let state := runNew digest salt calls
    (∀ id rec, getPosting state id = some rec → 2 ≤ rec.entries.length ∧ ∀ e ∈ rec.entries,
      (∃ d ∈ rec.entries, d.asset = e.asset ∧ d.direction = "DEBIT") ∧
      (∃ c ∈ rec.entries, c.asset = e.asset ∧ c.direction = "CREDIT") ∧
      sideTotal rec.entries "DEBIT" e.asset = sideTotal rec.entries "CREDIT" e.asset) ∧
    (balances state asset fun _ => true).sum = 0 ∧
    userCustodialSum state asset =
      -(balances state asset fun acc => !(acc.typeName == "user_custodial")).sum := by
  intro state
  have hr : Reachable digest salt state := ⟨calls, rfl⟩
  obtain ⟨journal, hbooks⟩ := reachable_books hr
  have hbooked : ∀ l ∈ state.entries.map (·.line),
      l.account ∈ (accountsOf state fun _ => true).toFinset := by
    intro l hl
    obtain ⟨e, he, rfl⟩ := List.mem_map.mp hl
    obtain ⟨acc, hacc⟩ := Option.isSome_iff_exists.mp (AList.lookup_isSome.mpr (hbooks.booked e he))
    exact List.mem_toFinset.mpr ((mem_accountsOf state _ _).mpr ⟨acc, hacc, rfl⟩)
  refine ⟨fun id rec hrec => ?_, ?_, ?_⟩
  · obtain ⟨⟨b, hb⟩, _, rfl⟩ := hbooks.recorded id rec hrec
    exact ⟨hb.two_le,
      fun e he => ⟨(hb.both_sides he).1, (hb.both_sides he).2, hb.totals_eq e.asset⟩⟩
  · rw [balances_sum]
    exact DoubleEntry.trial_balance hbooks.balanced _ hbooked _
  · rw [userCustodialSum_eq, balances_sum, balances_sum, accountsOf_not, accountsOf_filter]
    exact DoubleEntry.segregation hbooks.balanced _ hbooked _ _

end LedgerAccounting
