/-
  File:      LedgerAccounting/Pool/Post.lean
  Subject:   `Store::post` with a pool (`post_via_db`), as a script of database statements.

  Every statement on the pool is a step of its own; only the inserts and the commit run in the
  transaction. A transaction that is dropped is rolled back. The read of the last hash swallows its
  error (`last_entry_hash_from_db` ends in `ok()?`), every other error ends the call.
-/
import LedgerAccounting.Pool.Database
import LedgerAccounting.Store.Post

namespace LedgerAccounting

open Script

/-! ## 1. Statements whose errors end the call -/

abbrev Db (α : Type) := ExceptT PostError (Script Stmt Reply) α

/-- The error a failed statement ends the call with. -/
def dbError (context e : String) : PostError := .validation s!"{context}: {e}"

/-- A statement of the session. -/
def issue (o : Stmt) : Script Stmt Reply (Reply o) := perform o

/-- `map_err` with the text of the context. -/
def query {α : Type} (context : String) (p : Script Stmt Reply (Except String α)) : Db α :=
  ExceptT.mk (p >>= fun r => pure (r.mapError (dbError context)))

/-- A step without an error of its own. -/
def step {α : Type} (p : Script Stmt Reply α) : Db α := ExceptT.lift p

/-- A transaction that is dropped on an error is rolled back. -/
def orRollback {α : Type} (p : Db α) : Db α :=
  ExceptT.mk (p.run >>= fun r =>
    match r with
    | .ok a => pure (.ok a)
    | .error e => issue .rollback >>= fun _ => pure (.error e))

/-! ## 2. Answers from the tables -/

def replayFromDb (postingId : String) (p : PostingRow) : Db (PostingResponse × Bool) := do
  let entries ← query "post: fetch existing entries" (issue (.selectEntriesOf postingId))
  return (⟨p.postingId, p.status, entries.map (·.entryId), p.hashChainHead⟩, true)

/-- `fetch_one`: a missing row is an error. -/
def fetchExisting (postingId : String) : Db PostingRow := do
  match ← query "post: fetch existing" (issue (.selectPosting postingId)) with
  | some p => return p
  | none => throw (dbError "post: fetch existing"
      "no rows returned by a query that expected to return at least one row")

def checkActiveDb (p : ParsedEntry) : Db Unit := do
  match ← query "post: account lookup" (issue (.selectStatus p.accountId)) with
  | some status =>
    if status ≠ "ACTIVE" then throw (.validation s!"account not active: {p.accountId}")
    else return ()
  | none => throw (.validation s!"account not found: {p.accountId}")

def checkDirectionDb (p : ParsedEntry) : Db Unit := do
  match ← query "post: type lookup" (issue (.selectTypeName p.accountId)) with
  | some typeName => ExceptT.mk (pure (checkChart typeName p.dir))
  | none => throw (.validation s!"account not found: {p.accountId}")

/-- `last_entry_hash_from_db(..).unwrap_or_else(GENESIS_HASH)`. -/
def lastEntryHash : Script Stmt Reply String := do
  return (foundHash (← issue .selectLastHash)).getD genesisHash

/-! ## 3. The rows of a fresh posting -/

section Rows

variable (digest : ByteArray → String) (salt : String)

/-- The variables of the loop that hashes the entries in `post_via_db`. -/
structure HashLoop where
  prevHash : String
  entryIds : List String
  createdEntries : List EntryRecord

/-- The body of that loop; the sequence numbers are assigned later. -/
def HashLoop.push (sup : Supply) (now postingId : String) (l : HashLoop) (p : ParsedEntry) :
    HashLoop :=
  let entryId := sup.uuid l.entryIds.length
  let record := makeEntry digest salt now postingId l.prevHash entryId 0 p
  { prevHash := record.thisHash
    entryIds := l.entryIds ++ [entryId]
    createdEntries := l.createdEntries ++ [record] }

def hashEntries (sup : Supply) (now postingId prevHashInitial : String)
    (parsed : List ParsedEntry) : HashLoop :=
  parsed.foldl (HashLoop.push digest salt sup now postingId) ⟨prevHashInitial, [], []⟩

def postingRow (req : PostingRequest) (now hashHead : String) : PostingRow where
  postingId := req.postingId
  refTxId := req.refTxId
  memo := req.memo
  status := "POSTED"
  hashChainHead := hashHead
  createdAt := secs now

def anchorRow (postingId now hashHead : String) : AnchorRow where
  postingId := postingId
  headHash := hashHead
  globalSequenceHead := hashHead
  createdAt := secs now

/-- The loop that numbers and inserts the entries: the last number used, and the entries as
    numbered. -/
def insertEntries : Nat → List EntryRecord → Db (Nat × List EntryRecord)
  | seqCursor, [] => return (seqCursor, [])
  | seqCursor, e :: rest => do
    let e := { e with sequenceNumber := seqCursor + 1 }
    query "post: insert entry" (issue (.insertEntry e.row))
    let (last, inserted) ← insertEntries (seqCursor + 1) rest
    return (last, e :: inserted)

/-- The statements of the transaction up to its commit; `none` when the posting is already there. -/
def insertPosting (req : PostingRequest) (now : String) (l : HashLoop) :
    Db (Option (Nat × List EntryRecord)) := do
  let rows ← query "post: insert posting" (issue (.insertPosting (postingRow req now l.prevHash)))
  if rows = 0 then return none
  else
    -- through the pool: it sees neither this transaction nor any other open one
    let seqCursor ← query "post: next sequence: next_sequence" (issue .selectMaxSequence)
    let numbered ← insertEntries seqCursor l.createdEntries
    query "post: insert anchor" (issue (.insertAnchor (anchorRow req.postingId now l.prevHash)))
    return some numbered

/-! ## 4. The caches -/

/-- The cache of a replica after the commit of a posting. -/
def LedgerState.cachePosting (state : LedgerState) (req : PostingRequest) (now hashHead : String)
    (seqCursor : Nat) (created : List EntryRecord) : LedgerState :=
  { state with
    postings := state.postings.insert req.postingId
      { postingId := req.postingId
        refTxId := req.refTxId
        memo := req.memo
        status := "POSTED"
        hashHead := hashHead
        entries := created
        createdAt := now }
    entries := state.entries ++ created
    hashChainAnchors := state.hashChainAnchors.insert req.postingId
      { postingId := req.postingId
        headHash := hashHead
        globalSequenceHead := hashHead
        createdAt := now }
    globalChainHead := hashHead
    sequence := seqCursor }

def LedgerState.pushAudit (state : LedgerState) (event : AuditEvent) : LedgerState :=
  { state with auditEvents := state.auditEvents ++ [event] }

/-! ## 5. `post_via_db` -/

/-- The event is handed to the audit sink, if there is one. -/
def emitTo (sink : Bool) (event : AuditEvent) : Db Unit :=
  if sink then step (issue (.emit event)) else return ()

/-- The part after the accounts have been checked. -/
def postFresh (sup : Supply) (sink : Bool) (req : PostingRequest) (parsed : List ParsedEntry) :
    Db (PostingResponse × Bool) := do
  let now := sup.nowIso 0
  let prevHashInitial ← step lastEntryHash
  let l := hashEntries digest salt sup now req.postingId prevHashInitial parsed
  query "post: begin tx" (issue .begin)
  match ← orRollback (insertPosting req now l) with
  | none =>
    -- another session inserted the posting first: the transaction is dropped, its rows are answered
    step (issue .rollback)
    let p ← fetchExisting req.postingId
    replayFromDb req.postingId p
  | some (seqCursor, created) =>
    query "post: commit" (issue .commit)
    step (issue (.cache fun state => state.cachePosting req now l.prevHash seqCursor created))
    let event : AuditEvent :=
      { eventId := sup.uuid l.entryIds.length
        postingId := req.postingId
        entryIds := l.entryIds
        hashHead := l.prevHash
        createdAt := now }
    step (issue (.cache fun state => state.pushAudit event))
    emitTo sink event
    return (⟨req.postingId, "POSTED", l.entryIds, l.prevHash⟩, false)

def postViaDb (sup : Supply) (sink : Bool) (req : PostingRequest) (parsed : List ParsedEntry) :
    Db (PostingResponse × Bool) := do
  match ← query "post: check existing" (issue (.selectPosting req.postingId)) with
  | some p => replayFromDb req.postingId p
  | none =>
    parsed.forM checkActiveDb
    parsed.forM checkDirectionDb
    postFresh digest salt sup sink req parsed

/-- `Store::post` with a pool, with or without an audit sink. -/
def postPool (sup : Supply) (sink : Bool) (req : PostingRequest) :
    Script Stmt Reply (Except PostError (PostingResponse × Bool)) :=
  match validateRequest sup req with
  | .error e => .ret (.error e)
  | .ok parsed => (postViaDb digest salt sup sink req parsed).run

/-! ## 6. Calls side by side -/

/-- A call of `post`: what it draws from outside, whether its replica has a sink, its request. -/
structure PoolCall where
  sup : Supply
  sink : Bool
  req : PostingRequest

/-- Call `i` runs in session `i`; nothing has been sent yet. -/
def startCalls (calls : Nat → PoolCall) (w : World) :
    Config World Nat Stmt Reply (Except PostError (PostingResponse × Bool)) where
  state := w
  threads i := postPool digest salt (calls i).sup (calls i).sink (calls i).req

/-- The tables before the calls and the caches of the replicas. -/
def World.start (base : Tables) (inner : Nat → LedgerState) : World where
  base := base
  log := []
  txs := ∅
  lastHashRead _ := none
  inner := inner
  emitted := []

end Rows

end LedgerAccounting
