/-
  File:      LedgerAccounting/State.lean
  Subject:   The in-memory ledger state (`LedgerState` of `store.rs`) and the records it holds.

  The hash maps of the source are association lists with distinct keys; nothing here depends on
  the order in which they are visited, except where a definition says so.
-/
import LedgerAccounting.Posting
import Mathlib.Data.List.AList

namespace LedgerAccounting

/-- What a call of the store draws from outside: the `k`th reading of the clock, in seconds since
    the epoch, the `k`th fresh identifier, and the order in which the map `per_asset` of `post` is
    visited, which its seed draws. The seconds of a `SystemTime` fit an `i64`. -/
structure Supply where
  clock : Nat → Nat
  uuid : Nat → String
  visit : List (Sigma fun _ : String => Int × Int) → List (Sigma fun _ : String => Int × Int)
  clock_lt : ∀ k, clock k < 2 ^ 63
  visit_perm : ∀ l, (visit l).Perm l

/-- `now_iso` at the `k`th reading of the clock. -/
def Supply.nowIso (sup : Supply) (k : Nat) : String := toString (sup.clock k)

structure AuditEvent where
  eventId : String
  postingId : String
  entryIds : List String
  hashHead : String
  createdAt : String
  deriving DecidableEq, Repr

structure HashChainAnchor where
  postingId : String
  headHash : String
  globalSequenceHead : String
  createdAt : String
  deriving DecidableEq, Repr

structure BalanceSnapshot where
  accountId : String
  asset : String
  balance : Int
  asOfTs : String
  lastEntryId : String
  lastSequence : Nat
  deriving DecidableEq, Repr

structure LedgerState where
  accounts : AList (fun _ : String => Account)
  postings : AList (fun _ : String => PostingRecord)
  entries : List EntryRecord
  sequence : Nat
  auditEvents : List AuditEvent
  hashChainAnchors : AList (fun _ : String => HashChainAnchor)
  globalChainHead : String
  snapshots : List BalanceSnapshot

/-- `LedgerState::new`. -/
def LedgerState.new : LedgerState where
  accounts := ∅
  postings := ∅
  entries := []
  sequence := 0
  auditEvents := []
  hashChainAnchors := ∅
  globalChainHead := genesisHash
  snapshots := []

end LedgerAccounting
