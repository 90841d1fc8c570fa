/-
  File:      LedgerAccounting/Store/Accounts.lean
  Subject:   `Store::create_account` and the reads of accounts and balances on the in-memory
             store.
-/
import LedgerAccounting.Snapshot

namespace LedgerAccounting

/-! ## 1. Creating an account -/

/-- The account a validated request describes. -/
def newAccount (sup : Supply) (req : CreateAccountRequest) (typeName : String) : Account where
  accountId := req.accountId.getD (sup.uuid 0)
  typeName := typeName
  assetClass := req.assetClass
  label := req.label
  parentId := req.parentId
  status := "ACTIVE"
  createdAt := sup.nowIso 0

/-- `Store::create_account` without a pool. -/
def createAccount (sup : Supply) (req : CreateAccountRequest) (state : LedgerState) :
    Except String Account × LedgerState :=
  match validate req with
  | .error e => (.error e, state)
  | .ok (typeName, _) =>
    let account := newAccount sup req typeName
    if (state.accounts.lookup account.accountId).isSome then
      (.error s!"account already exists: {account.accountId}", state)
    else (.ok account, { state with accounts := state.accounts.insert account.accountId account })

/-- **A call of `create_account` keeps the state or adds an admitted account under a new key.** -/
theorem createAccount_cases (sup : Supply) (req : CreateAccountRequest) (state : LedgerState) :
    (∃ e, createAccount sup req state = (.error e, state)) ∨
    ∃ r account, validate req = .ok r ∧ account = newAccount sup req r.1 ∧
      state.accounts.lookup account.accountId = none ∧
      createAccount sup req state =
        (.ok account,
          { state with accounts := state.accounts.insert account.accountId account }) := by
  unfold createAccount
  cases hv : validate req with
  | error e => exact Or.inl ⟨e, rfl⟩
  | ok r =>
    cases hl : state.accounts.lookup (newAccount sup req r.1).accountId with
    | none => exact Or.inr ⟨r, _, rfl, rfl, hl, by simp [hl]⟩
    | some acc => exact Or.inl ⟨_, by simp [hl]; rfl⟩

/-! ## 2. Reads -/

def getAccount (state : LedgerState) (accountId : String) : Option Account :=
  state.accounts.lookup accountId

def getPosting (state : LedgerState) (postingId : String) : Option PostingRecord :=
  state.postings.lookup postingId

def hashChainAnchor (state : LedgerState) (postingId : String) : Option HashChainAnchor :=
  state.hashChainAnchors.lookup postingId

def globalChainHead (state : LedgerState) : String := state.globalChainHead

def balance (state : LedgerState) (accountId asset : String) : Option Int :=
  if (state.accounts.lookup accountId).isSome then some (computeBalance state accountId asset)
  else none

/-- `Store::user_custodial_sum`, visiting the accounts in the order of the association list. -/
def userCustodialSum (state : LedgerState) (asset : String) : Int :=
  state.accounts.entries.foldl
    (fun total p =>
      if p.2.typeName == "user_custodial" then total + computeBalance state p.1 asset else total)
    0

/-! ## 3. Snapshots -/

/-- `Store::write_snapshots` without a pool. -/
def writeSnapshots (sup : Supply) (state : LedgerState) : List BalanceSnapshot × LedgerState :=
  let snaps := snapshotAll sup state
  (snaps, { state with snapshots := snaps })

/-- `Store::latest_snapshot` without a pool: the last snapshot that matches. -/
def latestSnapshot (state : LedgerState) (accountId asset : String) : Option BalanceSnapshot :=
  ((state.snapshots.filter fun s => s.accountId == accountId).reverse).find? fun s =>
    asset.isEmpty || s.asset == asset

/-- `Store::balance_via_snapshot` without a pool: the snapshot it starts from is the one
    `latest_snapshot` finds. -/
def balanceViaSnapshot (state : LedgerState) (accountId asset : String) : Option Int :=
  if (state.accounts.lookup accountId).isNone then none
  else
    match latestSnapshot state accountId asset with
    | some s =>
      let lastSeq := s.lastSequence
      let delta := ((matching state.entries accountId asset).filter fun e =>
        lastSeq < e.sequenceNumber).foldl (fun acc e => acc + e.signed) 0
      some (s.balance + delta)
    | none => some (computeBalance state accountId asset)

end LedgerAccounting
