/-
  File:      LedgerAccounting/Treasury.lean
  Subject:   The two callers of `post` in `treasury.rs`: a hedge and a rebalancing between two
             accounts.
-/
import LedgerAccounting.Store.Post

namespace LedgerAccounting

/-- A balanced movement of one amount between two accounts, with the memo `{tag}:{posting_id}`. -/
def transferRequest (tag postingId debitAccount creditAccount asset : String) (amount : Nat) :
    PostingRequest where
  postingId := postingId
  entries :=
    [ { accountId := debitAccount, direction := "DEBIT", amount := amount, asset := asset },
      { accountId := creditAccount, direction := "CREDIT", amount := amount, asset := asset } ]
  memo := some s!"{tag}:{postingId}"
  refTxId := some postingId

def hedgeRequest (postingId treasuryAccount venueAccount asset : String) (amount : Nat) :
    PostingRequest :=
  transferRequest "hedge" postingId treasuryAccount venueAccount asset amount

def rebalanceRequest (postingId fromAccount toAccount asset : String) (amount : Nat) :
    PostingRequest :=
  transferRequest "rebalance" postingId toAccount fromAccount asset amount

/-- The posting id of a step of a saga, as the orchestrator derives it. -/
def derivePostingId (sagaId step : String) : String := s!"{sagaId}_{step}"

section Callers

variable (digest : ByteArray → String) (salt : String) (sup : Supply)

/-- `store.post(req).map(|_| ()).map_err(|e| e.message())`: the replay flag is dropped. -/
def postSilently (req : PostingRequest) (state : LedgerState) : Except String Unit × LedgerState :=
  match post digest salt sup req state with
  | (.ok _, state') => (.ok (), state')
  | (.error e, state') => (.error e.message, state')

def hedgeEntry (postingId treasuryAccount venueAccount asset : String) (amount : Nat)
    (state : LedgerState) : Except String Unit × LedgerState :=
  postSilently digest salt sup
    (hedgeRequest postingId treasuryAccount venueAccount asset amount) state

def rebalance (postingId fromAccount toAccount asset : String) (amount : Nat)
    (state : LedgerState) : Except String Unit × LedgerState :=
  postSilently digest salt sup (rebalanceRequest postingId fromAccount toAccount asset amount) state

variable {digest salt sup}

/-- A silent success is a success of `post`, fresh or replayed. -/
theorem postSilently_ok {req : PostingRequest} {state : LedgerState}
    (h : (postSilently digest salt sup req state).1 = .ok ()) :
    (postSilently digest salt sup req state).2 = (post digest salt sup req state).2 ∧
      ∃ r replayed, (post digest salt sup req state).1 = .ok (r, replayed) := by
  unfold postSilently at h ⊢
  rcases hp : post digest salt sup req state with ⟨answer, state'⟩
  cases answer with
  | error e =>
    rw [hp] at h
    cases h
  | ok a => exact ⟨rfl, a.1, a.2, rfl⟩

end Callers

end LedgerAccounting
