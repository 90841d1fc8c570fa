/-
  File:      LedgerAccounting/Memory/Effect.lean
  Subject:   What a fresh posting does to the balances, and what it leaves as it was.

  * `createEntries_balance`: the entries a request becomes book its net amounts.
  * `posting_effect`: every balance and the custodial sum change by the net amount of the request,
    and by nothing else.
-/
import LedgerAccounting.Memory.TrialBalance

namespace LedgerAccounting

open Runs

/-! ## 1. The net amounts of a request -/

/-- The entries of the request in one direction on an account, in one asset or, for the empty text,
    in all of them, in total. -/
def sideOn (entries : List EntryInput) (direction accountId asset : String) : Nat :=
  ((entries.filter fun e => e.direction == direction && e.accountId == accountId &&
    selects asset e.asset).map (·.amount)).sum

/-- The `DEBIT` entries less the `CREDIT` entries. -/
def netOn (entries : List EntryInput) (accountId asset : String) : Int :=
  (sideOn entries "DEBIT" accountId asset : Int) - sideOn entries "CREDIT" accountId asset

/-- The test `user_custodial_sum` makes of an account. -/
def Account.custodial (acc : Account) : Bool := acc.typeName == "user_custodial"

@[simp] theorem netOn_nil (accountId asset : String) : netOn [] accountId asset = 0 := rfl

theorem sideOn_cons (e : EntryInput) (l : List EntryInput) (direction accountId asset : String) :
    sideOn (e :: l) direction accountId asset =
      (if e.direction = direction ∧ e.accountId = accountId ∧ selects asset e.asset = true then
        e.amount else 0) + sideOn l direction accountId asset := by
  unfold sideOn
  by_cases h : e.direction = direction ∧ e.accountId = accountId ∧ selects asset e.asset = true
  · rw [List.filter_cons_of_pos (by simpa [and_assoc] using h), if_pos h]
    rfl
  · rw [List.filter_cons_of_neg (by simpa [and_assoc] using h), if_neg h, Nat.zero_add]

/-- Nothing comes to an account without an entry. -/
theorem netOn_absent {entries : List EntryInput} {accountId : String}
    (h : ∀ e ∈ entries, e.accountId ≠ accountId) (asset : String) :
    netOn entries accountId asset = 0 := by
  induction entries with
  | nil => rfl
  | cons e l ih =>
    rw [List.forall_mem_cons] at h
    have hl := ih h.2
    unfold netOn at hl ⊢
    rw [sideOn_cons, sideOn_cons, if_neg fun hc => h.1 hc.2.1, if_neg fun hc => h.1 hc.2.1]
    simpa using hl

/-! ## 2. What the created entries book -/

/-- The parsed entries of a request book its net amounts. -/
theorem parsed_balance {entries : List EntryInput} {parsed : List ParsedEntry}
    (h : List.Forall₂ (fun e p => parseEntry e = .ok p) entries parsed) (accountId asset : String) :
    DoubleEntry.balance (parsed.map (·.line)) accountId (selects asset) =
      netOn entries accountId asset := by
  unfold DoubleEntry.balance
  induction h with
  | nil => rfl
  | @cons e p entries parsed hparse _ ih =>
    obtain ⟨hd, ha, hn, hs⟩ := (parseEntry_ok_iff e p).mp hparse
    rw [List.map_cons, DoubleEntry.value_cons, ih]
    unfold netOn
    rw [sideOn_cons, sideOn_cons, hd, ← ha, ← hn, ← hs]
    by_cases hacc : p.accountId = accountId
    · cases hsel : selects asset p.asset
      · simp [ParsedEntry.line, hsel]
      · cases hdir : p.dir <;>
          simp [ParsedEntry.line, ParsedEntry.signed, Direction.text, hdir, hacc, hsel] <;> omega
    · simp [ParsedEntry.line, hacc]

section Effect

variable {digest : ByteArray → String} {salt : String} {state : LedgerState}
  {req : PostingRequest} {parsed : List ParsedEntry}

/-- **The entries created for an accepted request book its net amounts.** -/
theorem createEntries_balance (ha : Accepts state req parsed) (sup : Supply)
    (accountId asset : String) :
    DoubleEntry.balance
        ((createEntries digest salt sup state req.postingId parsed).createdEntries.map (·.line))
        accountId (selects asset) = netOn req.entries accountId asset := by
  rw [made_lines (createEntries_spec digest salt sup state req.postingId parsed).made]
  exact parsed_balance ha.valid.parses accountId asset

/-- A fresh posting changes every computed balance by its net amount. -/
theorem record_computeBalance (ha : Accepts state req parsed) (sup : Supply)
    (accountId asset : String) :
    computeBalance (state.record sup req
        (createEntries digest salt sup state req.postingId parsed)) accountId asset =
      computeBalance state accountId asset + netOn req.entries accountId asset := by
  rw [computeBalance_eq, computeBalance_eq, ← createEntries_balance ha sup, record_entries,
    List.map_append]
  exact DoubleEntry.value_append _ _ _

/-- `user_custodial_sum` adds up the computed balances of the custodial accounts. -/
theorem userCustodialSum_computed (state : LedgerState) (asset : String) :
    userCustodialSum state asset =
      ((accountsOf state Account.custodial).map fun a => computeBalance state a asset).sum := by
  unfold userCustodialSum accountsOf
  rw [foldl_select, zero_add, List.map_map]
  rfl

/-- A fresh answer has changed the computed balances by the net amounts of the request, and neither
    the accounts nor the snapshots. -/
theorem fresh_effect {sup : Supply} {r : PostingResponse}
    (h : (post digest salt sup req state).1 = .ok (r, false)) :
    (∀ accountId asset, computeBalance (post digest salt sup req state).2 accountId asset =
      computeBalance state accountId asset + netOn req.entries accountId asset) ∧
    (post digest salt sup req state).2.accounts = state.accounts ∧
    (post digest salt sup req state).2.snapshots = state.snapshots := by
  obtain ⟨parsed, ha⟩ := accepts_of_fresh digest salt sup h
  rw [post_accepted digest salt sup ha]
  exact ⟨record_computeBalance ha sup, rfl, rfl⟩

end Effect

/-- The balance the store answers follows the computed one while the accounts stay. -/
theorem balance_changed {s s' : LedgerState} (ha : s'.accounts = s.accounts)
    {accountId asset : String} {d : Int}
    (hc : computeBalance s' accountId asset = computeBalance s accountId asset + d) :
    balance s' accountId asset = (balance s accountId asset).map (· + d) := by
  unfold balance
  rw [ha, hc]
  by_cases h : (s.accounts.lookup accountId).isSome = true
  · rw [if_pos h, if_pos h]
    rfl
  · rw [if_neg h, if_neg h]
    rfl

/-- So does the custodial sum. -/
theorem userCustodialSum_changed {s s' : LedgerState} (ha : s'.accounts = s.accounts)
    {asset : String} {d : String → Int}
    (hc : ∀ a, computeBalance s' a asset = computeBalance s a asset + d a) :
    userCustodialSum s' asset =
      userCustodialSum s asset + ((accountsOf s Account.custodial).map d).sum := by
  have hsame : accountsOf s' Account.custodial = accountsOf s Account.custodial := by
    unfold accountsOf
    rw [ha]
  rw [userCustodialSum_computed, userCustodialSum_computed, hsame, ← List.sum_map_add]
  exact congrArg List.sum (List.map_congr_left fun a _ => hc a)

/-! ## 3. The effect of a posting -/

/-- **A posting answered afresh changes the balances by its net amounts and nothing else**, after
    every run: every balance, in one asset or over all of them, by the debits of the request on the
    account less its credits, and the custodial sum by what that comes to over the custodial
    accounts. The accounts and the snapshots stay as they were. -/
theorem posting_effect (digest : ByteArray → String) (salt : String) (calls : List Call)
    (sup : Supply) (req : PostingRequest) (r : PostingResponse)
    (h : (post digest salt sup req (runNew digest salt calls)).1 = .ok (r, false)) :
    let state := runNew digest salt calls
    let state' := (post digest salt sup req state).2
    (∀ accountId asset, balance state' accountId asset =
      (balance state accountId asset).map (· + netOn req.entries accountId asset)) ∧
    (∀ asset, userCustodialSum state' asset = userCustodialSum state asset +
      ((accountsOf state Account.custodial).map fun a => netOn req.entries a asset).sum) ∧
    state'.accounts = state.accounts ∧ state'.snapshots = state.snapshots := by
  intro state state'
  obtain ⟨hbalance, haccounts, hsnapshots⟩ := fresh_effect h
  exact ⟨fun accountId asset => balance_changed haccounts (hbalance accountId asset),
    fun asset => userCustodialSum_changed haccounts fun a => hbalance a asset, haccounts,
    hsnapshots⟩

/-- The sample posting. -/
theorem posting_effect_sample :
    let state := runNew sampleDigest sampleSalt sampleAccounts
    let state' := (post sampleDigest sampleSalt sampleSupply sampleRequest state).2
    (∀ accountId asset, balance state' accountId asset =
      (balance state accountId asset).map (· + netOn sampleRequest.entries accountId asset)) ∧
    (∀ asset, userCustodialSum state' asset = userCustodialSum state asset +
      ((accountsOf state Account.custodial).map fun a =>
        netOn sampleRequest.entries a asset).sum) ∧
    state'.accounts = state.accounts ∧ state'.snapshots = state.snapshots :=
  posting_effect sampleDigest sampleSalt sampleAccounts sampleSupply sampleRequest sampleResponse
    sample_post

end LedgerAccounting
