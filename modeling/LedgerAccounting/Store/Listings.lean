/-
  File:      LedgerAccounting/Store/Listings.lean
  Subject:   The listings of the in-memory store: accounts, postings and the statement of an
             account (`list_accounts`, `list_postings` and `ledger` of `store.rs`).
-/
import LedgerAccounting.Store.Accounts

namespace LedgerAccounting

/-! ## 1. Accounts and postings -/

/-- The comparison both listings sort by: the text `created_at`, then the id. -/
def createdBefore (a b : String × String) : Bool := a.1 < b.1 || (a.1 == b.1 && a.2 ≤ b.2)

def listAccounts (state : LedgerState) (typeFilter : Option String) : List Account :=
  ((state.accounts.entries.map (·.2)).filter fun a => typeFilter.all (a.typeName == ·)).mergeSort
    fun a b => createdBefore (a.createdAt, a.accountId) (b.createdAt, b.accountId)

/-- `limit.clamp(1, 200)`. -/
def clampLimit (limit : Nat) : Nat := max 1 (min limit 200)

def listPostings (state : LedgerState) (limit : Nat) : List PostingRecord :=
  ((state.postings.entries.map (·.2)).mergeSort fun a b =>
    createdBefore (a.createdAt, a.postingId) (b.createdAt, b.postingId)).take (clampLimit limit)

/-! ## 2. The statement of an account -/

structure LedgerEntryItem where
  entryId : String
  postingId : String
  accountId : String
  direction : String
  amount : Nat
  asset : String
  sequenceNumber : Nat
  thisHash : String
  prevHash : String
  createdAt : String
  runningBalance : Int
  deriving DecidableEq, Repr

structure LedgerPage where
  accountId : String
  entries : List LedgerEntryItem
  nextCursor : Option Nat
  finalBalance : Int
  deriving DecidableEq, Repr

def EntryRecord.item (e : EntryRecord) (runningBalance : Int) : LedgerEntryItem where
  entryId := e.entryId
  postingId := e.postingId
  accountId := e.accountId
  direction := e.direction
  amount := e.amount
  asset := e.asset
  sequenceNumber := e.sequenceNumber
  thisHash := e.thisHash
  prevHash := e.prevHash
  createdAt := e.createdAt
  runningBalance := runningBalance

/-- The scan of `ledger`, from the running balance `acc`. -/
def runningItems : Int → List EntryRecord → List LedgerEntryItem
  | _, [] => []
  | acc, e :: l => e.item (acc + e.signed) :: runningItems (acc + e.signed) l

/-- The entries `ledger` selects, by sequence number. -/
def statementEntries (state : LedgerState) (accountId : String) (since till : Option String)
    (cursor : Option Nat) : List EntryRecord :=
  ((((state.entries.filter fun e => e.accountId == accountId).filter fun e =>
    since.all (· ≤ e.createdAt)).filter fun e => till.all (e.createdAt ≤ ·)).filter fun e =>
    cursor.all (· < e.sequenceNumber)).mergeSort fun a b => a.sequenceNumber ≤ b.sequenceNumber

def ledger (state : LedgerState) (accountId : String) (since till : Option String) (limit : Nat)
    (cursor : Option Nat) : Except String LedgerPage :=
  let limit := clampLimit limit
  if (state.accounts.lookup accountId).isNone then .error s!"account not found: {accountId}"
  else
    let entries := statementEntries state accountId since till cursor
    .ok
      { accountId := accountId
        entries := runningItems 0 (entries.take limit)
        nextCursor :=
          if entries.length > limit then (entries[limit - 1]?).map (·.sequenceNumber) else none
        finalBalance := computeBalance state accountId "" }

end LedgerAccounting
