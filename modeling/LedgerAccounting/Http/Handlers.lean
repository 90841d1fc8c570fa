/-
  File:      LedgerAccounting/Http/Handlers.lean
  Subject:   The REST handlers over the in-memory store and the router that dispatches to them
             (`handlers.rs`).

  Reading a typed value out of a body, a query or a path segment is axum's and serde's code: the
  functions that do it are the parameter `Extract`, and what they refuse they refuse with one of
  the statuses of a `Rejection`.

  * `router_status`: no answer of the router has the status 401.
-/
import LedgerAccounting.Store.Listings
import LedgerAccounting.Store.PostSpec

namespace LedgerAccounting

open Runs

/-! ## 1. Requests and responses -/

inductive Method where
  | get
  | head
  | post
  | other
  deriving DecidableEq, Repr

/-- A request as it comes from the network; `authorization` is the text of its first
    `Authorization` header, `none` when there is none or it is no visible ASCII text. -/
structure HttpRequest where
  method : Method
  path : String
  query : String
  authorization : Option String
  body : String
  deriving DecidableEq, Repr

/-- A request inside the server, with the one extension that is ever set on it. -/
structure Request extends HttpRequest where
  sharedSecret : Option String
  deriving DecidableEq, Repr

/-- What an extractor refuses a request with. -/
inductive Rejection where
  | badRequest (text : String)
  | payloadTooLarge (text : String)
  | unsupportedMediaType (text : String)
  | unprocessableEntity (text : String)
  deriving DecidableEq, Repr

def Rejection.status : Rejection → Nat
  | .badRequest _ => 400
  | .payloadTooLarge _ => 413
  | .unsupportedMediaType _ => 415
  | .unprocessableEntity _ => 422

/-- The values the handlers put into their JSON answers. -/
inductive Body where
  | empty
  | rejected (r : Rejection)
  | unauthorized (message : String)
  | error (message : String)
  | status (text : String)
  | chart (version genesisHash : String) (accountTypes : List AccountType)
  | accounts (accounts : List Account)
  | accountId (accountId : String)
  | balance (accountId asset balance asOfTs : String)
  | page (page : LedgerPage)
  | postings (postings : List PostingRecord)
  | posting (response : PostingResponse)
  | record (record : PostingRecord)
  | custodialSum (asset sum : String)
  | chain (result : Except ChainBreak Unit)

structure Response where
  status : Nat
  body : Body

structure ListAccountsQuery where
  typeFilter : Option String

structure LedgerQuery where
  since : Option String
  till : Option String
  limit : Option Nat
  cursor : Option Nat

/-- The extractors: from a body, a query or a path segment. -/
structure Extract where
  createAccountRequest : String → Except Rejection CreateAccountRequest
  postingRequest : String → Except Rejection PostingRequest
  listAccountsQuery : String → Except Rejection ListAccountsQuery
  limit : String → Except Rejection (Option Nat)
  asset : String → Except Rejection (Option String)
  ledgerQuery : String → Except Rejection LedgerQuery
  id : String → Except Rejection String

/-! ## 2. The handlers -/

inductive Handler where
  | healthz
  | readyz
  | chartOfAccounts
  | listAccounts
  | accountBalance
  | accountLedger
  | listPostings
  | getPosting
  | userCustodialSum
  | verifyChain
  | createAccount
  | createPosting
  deriving DecidableEq, Repr

section Handlers

variable (x : Extract) (digest : ByteArray → String) (salt : String) (sup : Supply)

/-- `asset.is_empty() ? "all" : asset`. -/
def assetLabel (asset : String) : String := if asset.isEmpty then "all" else asset

namespace Handlers

def accountBalance (segment query : String) (state : LedgerState) : Except Rejection Response := do
  let id ← x.id segment
  let asset := (← x.asset query).getD ""
  match balance state id asset with
  | some bal =>
    let asOfTs := ((getAccount state id).map (·.createdAt)).getD (sup.nowIso 0)
    return ⟨200, .balance id (assetLabel asset) (toString bal) asOfTs⟩
  | none => return ⟨404, .error s!"account not found: {id}"⟩

def accountLedger (segment query : String) (state : LedgerState) : Except Rejection Response := do
  let id ← x.id segment
  let q ← x.ledgerQuery query
  match ledger state id q.since q.till (q.limit.getD 50) q.cursor with
  | .ok page => return ⟨200, .page page⟩
  | .error e => return ⟨404, .error e⟩

def getPosting (segment : String) (state : LedgerState) : Except Rejection Response := do
  let id ← x.id segment
  match LedgerAccounting.getPosting state id with
  | some rec => return ⟨200, .record rec⟩
  | none => return ⟨404, .error s!"posting not found: {id}"⟩

def userCustodialSum (query : String) (state : LedgerState) : Except Rejection Response := do
  let asset := (← x.asset query).getD ""
  return ⟨200, .custodialSum (assetLabel asset)
    (toString (LedgerAccounting.userCustodialSum state asset))⟩

def createAccount (body : String) (state : LedgerState) :
    Except Rejection (Response × LedgerState) := do
  let req ← x.createAccountRequest body
  match LedgerAccounting.createAccount sup req state with
  | (.ok account, state') => return (⟨201, .accountId account.accountId⟩, state')
  | (.error e, state') => return (⟨400, .error e⟩, state')

def createPosting (body : String) (state : LedgerState) :
    Except Rejection (Response × LedgerState) := do
  let req ← x.postingRequest body
  match post digest salt sup req state with
  | (.ok (resp, replay), state') => return (⟨if replay then 200 else 201, .posting resp⟩, state')
  | (.error e, state') =>
    let code := match e.status with
      | 400 => 400
      | _ => 500
    return (⟨code, .error e.message⟩, state')

end Handlers

/-- A handler that leaves the state as it is. -/
def readOnly (state : LedgerState) (r : Except Rejection Response) :
    Except Rejection (Response × LedgerState) :=
  r.map fun response => (response, state)

/-- The handler `h` on a request whose path carries the segment `segment`. -/
def handle (h : Handler) (segment : String) (req : Request) (state : LedgerState) :
    Except Rejection (Response × LedgerState) :=
  match h with
  | .healthz => readOnly state (.ok ⟨200, .status "ok"⟩)
  | .readyz => readOnly state (.ok ⟨200, .status "ready"⟩)
  | .chartOfAccounts => readOnly state (.ok ⟨200, .chart "1.0.0" genesisHash chart⟩)
  | .listAccounts => readOnly state do
    let q ← x.listAccountsQuery req.query
    return ⟨200, .accounts (listAccounts state q.typeFilter)⟩
  | .accountBalance => readOnly state (Handlers.accountBalance x sup segment req.query state)
  | .accountLedger => readOnly state (Handlers.accountLedger x segment req.query state)
  | .listPostings => readOnly state do
    let limit ← x.limit req.query
    return ⟨200, .postings (listPostings state (limit.getD 50))⟩
  | .getPosting => readOnly state (Handlers.getPosting x segment state)
  | .userCustodialSum => readOnly state (Handlers.userCustodialSum x req.query state)
  | .verifyChain => readOnly state (.ok ⟨200, .chain (verifyChain digest salt state)⟩)
  | .createAccount => Handlers.createAccount x sup req.body state
  | .createPosting => Handlers.createPosting x digest salt sup req.body state

/-! ## 3. The router -/

/-- What a service does with a request: its answer, the handler that ran, and the state after. -/
structure Outcome where
  response : Response
  handler : Option Handler
  state : LedgerState

abbrev Service := Request → LedgerState → Outcome

/-- The routes of `read_router` and `write_router`, merged: the handlers of a path by method, and
    the path segment that stands for `:id`. In the middle of a path the segment may be empty, at its
    end it may not. -/
def routes (path : String) : Option (List (Method × Handler) × String) :=
  match (path.toList.splitOn '/').map String.ofList with
  | ["", "healthz"] => some ([(.get, .healthz)], "")
  | ["", "readyz"] => some ([(.get, .readyz)], "")
  | ["", "v1", "chart-of-accounts"] => some ([(.get, .chartOfAccounts)], "")
  | ["", "v1", "accounts"] => some ([(.get, .listAccounts), (.post, .createAccount)], "")
  | ["", "v1", "accounts", id, "balance"] => some ([(.get, .accountBalance)], id)
  | ["", "v1", "accounts", id, "ledger"] => some ([(.get, .accountLedger)], id)
  | ["", "v1", "postings"] => some ([(.get, .listPostings), (.post, .createPosting)], "")
  | ["", "v1", "postings", id] => if id.isEmpty then none else some ([(.get, .getPosting)], id)
  | ["", "v1", "reconciliation", "user-custodial-sum"] => some ([(.get, .userCustodialSum)], "")
  | ["", "v1", "chain", "verify"] => some ([(.get, .verifyChain)], "")
  | _ => none

/-- A route for `GET` answers `HEAD` too, without the body. -/
def Method.routed : Method → Method
  | .head => .get
  | m => m

def Response.forMethod (m : Method) (r : Response) : Response :=
  if m = .head then { r with body := .empty } else r

/-- `handlers::router`. -/
def router : Service := fun req state =>
  match routes req.path with
  | none => ⟨⟨404, .empty⟩, none, state⟩
  | some (methods, segment) =>
    match methods.lookup req.method.routed with
    | none => ⟨⟨405, .empty⟩, none, state⟩
    | some h =>
      match handle x digest salt sup h segment req state with
      | .ok (response, state') => ⟨response.forMethod req.method, some h, state'⟩
      | .error r => ⟨Response.forMethod req.method ⟨r.status, .rejected r⟩, none, state⟩

/-! ## 4. No answer of the router is a refusal for want of a token -/

section Status

variable {x digest salt sup}

theorem readOnly_ok {state state' : LedgerState} {r : Except Rejection Response}
    {response : Response} (h : readOnly state r = .ok (response, state')) : r = .ok response := by
  cases r with
  | error e => cases h
  | ok a => cases h; rfl

theorem handle_status {h : Handler} {segment : String} {req : Request}
    {state state' : LedgerState} {response : Response}
    (hok : handle x digest salt sup h segment req state = .ok (response, state')) :
    response.status ≠ 401 := by
  cases h with
  | healthz => cases readOnly_ok hok; decide
  | readyz => cases readOnly_ok hok; decide
  | chartOfAccounts => cases readOnly_ok hok; decide
  | verifyChain => cases readOnly_ok hok; simp
  | listAccounts =>
    obtain ⟨q, _, hr⟩ := bind_ok_iff.mp (readOnly_ok hok)
    cases hr
    simp
  | listPostings =>
    obtain ⟨limit, _, hr⟩ := bind_ok_iff.mp (readOnly_ok hok)
    cases hr
    simp
  | userCustodialSum =>
    obtain ⟨asset, _, hr⟩ := bind_ok_iff.mp (readOnly_ok hok)
    cases hr
    simp
  | accountBalance =>
    obtain ⟨id, _, hr⟩ := bind_ok_iff.mp (readOnly_ok hok)
    obtain ⟨asset, _, hr⟩ := bind_ok_iff.mp hr
    dsimp only at hr
    split at hr <;> cases hr <;> simp
  | accountLedger =>
    obtain ⟨id, _, hr⟩ := bind_ok_iff.mp (readOnly_ok hok)
    obtain ⟨q, _, hr⟩ := bind_ok_iff.mp hr
    split at hr <;> cases hr <;> simp
  | getPosting =>
    obtain ⟨id, _, hr⟩ := bind_ok_iff.mp (readOnly_ok hok)
    split at hr <;> cases hr <;> simp
  | createAccount =>
    obtain ⟨r, _, hr⟩ := bind_ok_iff.mp hok
    split at hr <;> cases hr <;> simp
  | createPosting =>
    obtain ⟨r, _, hr⟩ := bind_ok_iff.mp hok
    split at hr <;> cases hr <;> dsimp only <;> split <;> simp

theorem forMethod_status (m : Method) (r : Response) : (r.forMethod m).status = r.status := by
  unfold Response.forMethod
  split <;> rfl

/-- **No answer of the router has the status 401.** -/
theorem router_status (req : Request) (state : LedgerState) :
    (router x digest salt sup req state).response.status ≠ 401 := by
  unfold router
  cases routes req.path with
  | none => simp
  | some r =>
    cases hl : r.1.lookup req.method.routed with
    | none => simp [hl]
    | some h =>
      cases hh : handle x digest salt sup h r.2 req state with
      | error e =>
        simp only [hl, hh, forMethod_status]
        cases e <;> simp [Rejection.status]
      | ok out =>
        simp only [hl, hh, forMethod_status]
        exact handle_status hh

end Status

end Handlers

end LedgerAccounting
