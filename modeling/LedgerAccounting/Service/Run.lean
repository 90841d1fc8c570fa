/-
  File:      LedgerAccounting/Service/Run.lean
  Subject:   The running service of `main` without a database: the REST router, the gRPC service
             and the snapshot task on one in-memory store.

  All three hold clones of one store, whose operations take one lock each, so what comes in takes
  effect one event after another and a run is a list of events.

  * `handle_call`, `handle_acknowledged`: what one event does to the ledger and acknowledges.
  * `service_refines`: the service runs as the store does on the calls of its events.
  * `started_serves`: what comes up without a database is such a service.
-/
import LedgerAccounting.Http.Auth
import LedgerAccounting.Memory.ChainIntegrity
import LedgerAccounting.Memory.Idempotency
import LedgerAccounting.Service.Boot
import LedgerAccounting.Service.Grpc

namespace LedgerAccounting

open Runs

/-! ## 1. The service -/

/-- What the running service consists of besides the state of its store. -/
structure Server where
  extract : Extract
  decode : String → String → Except String Unit
  digest : ByteArray → String
  salt : String
  secret : Option String
  grpc : LedgerGrpc

/-- The service that `main` serves with, once it has come up. -/
def mainServer (extract : Extract) (decode : String → String → Except String Unit)
    (digest : ByteArray → String) (env : Env) (started : Started) : Server where
  extract := extract
  decode := decode
  digest := digest
  salt := started.store.salt
  secret := started.secret
  grpc := runGrpc env

/-- What comes to the service: a request over either protocol, or the timer of
    `run_snapshot_task`. -/
inductive Event where
  | rest (req : HttpRequest) (sup : Supply)
  | grpc (req : GrpcRequest) (sup : Supply)
  | snapshots (sup : Supply)

/-- The number of snapshots is what the task prints. -/
inductive ServiceReply where
  | rest (response : Response)
  | grpc (r : Except Status GrpcReply)
  | snapshots (written : Nat)

namespace Server

variable (srv : Server)

def restService (sup : Supply) : Service :=
  assemble srv.decode srv.secret (router srv.extract srv.digest srv.salt sup)

/-- What the service does with one event. -/
def handle : Event → LedgerState → ServiceReply × LedgerState
  | .rest req sup, state =>
    let out := serve (srv.restService sup) req state
    (.rest out.response, out.state)
  | .grpc req sup, state =>
    let (r, state') := srv.grpc.handle srv.digest srv.salt sup req state
    (.grpc r, state')
  | .snapshots sup, state =>
    let (snaps, state') := writeSnapshots sup state
    (.snapshots snaps.length, state')

end Server

/-! ## 2. The calls of the events -/

/-- The handler of a request, and the path segment that stands for `:id`. -/
def dispatch (req : HttpRequest) : Option (Handler × String) :=
  (routes req.path).bind fun r => (r.1.lookup req.method.routed).map fun h => (h, r.2)

/-- The write a REST request asks the store for. -/
def restCall (x : Extract) (sup : Supply) (req : HttpRequest) : Option Call :=
  match dispatch req with
  | some (.createAccount, _) =>
    (x.createAccountRequest req.body).toOption.map fun r => .createAccount r sup
  | some (.createPosting, _) => (x.postingRequest req.body).toOption.map fun r => .post r sup
  | _ => none

/-- The write a gRPC request asks the store for. -/
def LedgerGrpc.call (g : LedgerGrpc) (sup : Supply) : GrpcRequest → Option Call
  | .createAccount caller req =>
    (g.authorize caller).toOption.map fun _ => .createAccount req.request sup
  | .postPosting caller req => (g.authorize caller).toOption.map fun _ => .post req.request sup
  | _ => none

def Server.call (srv : Server) : Event → Option Call
  | .rest req sup => restCall srv.extract sup req
  | .grpc req sup => srv.grpc.call sup req
  | .snapshots sup => some (.writeSnapshots sup)

/-- The REST answer to a new account. -/
def accountResponse : Except String Account → Response
  | .ok account => ⟨201, .accountId account.accountId⟩
  | .error e => ⟨400, .error e⟩

/-- The REST answer to a posting. -/
def postingResponse : Except PostError (PostingResponse × Bool) → Response
  | .ok (resp, replay) => ⟨if replay then 200 else 201, .posting resp⟩
  | .error e => ⟨match e.status with | 400 => 400 | _ => 500, .error e.message⟩

/-- An answer that acknowledges nothing. -/
def Response.Silent (r : Response) : Prop := r.status ≠ 201 ∧ ∀ p, r.body ≠ .posting p

section Rest

variable {x : Extract} {digest : ByteArray → String} {salt : String} {sup : Supply}

/-- In the order of `main` the router sees every request, whatever its token. -/
theorem serve_router (decode : String → String → Except String Unit) (secret : Option String)
    (service : Service) (req : HttpRequest) (state : LedgerState) :
    serve (assemble decode secret service) req state =
      service { toHttpRequest := req, sharedSecret := secret } state := by
  cases secret with
  | some s => exact serve_assemble service s req state
  | none =>
    unfold serve assemble Service.layer requireToken
    simp

/-- The router hands a request to its handler. -/
theorem router_dispatch {req : Request} {state : LedgerState} {h : Handler} {segment : String}
    (hd : dispatch req.toHttpRequest = some (h, segment)) :
    router x digest salt sup req state =
      match handle x digest salt sup h segment req state with
      | .ok (response, state') => ⟨response.forMethod req.method, some h, state'⟩
      | .error r => ⟨Response.forMethod req.method ⟨r.status, .rejected r⟩, none, state⟩ := by
  unfold dispatch at hd
  obtain ⟨r, hr, hh⟩ := Option.bind_eq_some_iff.mp hd
  obtain ⟨h', hl, heq⟩ := Option.map_eq_some_iff.mp hh
  cases heq
  cases hout : handle x digest salt sup h r.2 req state with
  | ok out => simp only [router, hr, hl, hout]
  | error r => simp only [router, hr, hl, hout]

/-- The writing handlers stand behind `POST` only. -/
theorem routes_writes {path segment : String} {methods : List (Method × Handler)} {m : Method}
    {h : Handler} (hr : routes path = some (methods, segment)) (hm : (m, h) ∈ methods)
    (hw : h = .createAccount ∨ h = .createPosting) : m = .post := by
  unfold routes at hr
  split at hr <;> (try split at hr) <;> cases hr <;> rcases hw with rfl | rfl <;> simp_all

/-- Only a `POST` is handed to a writing handler. -/
theorem dispatch_post {req : HttpRequest} {h : Handler} {segment : String}
    (hd : dispatch req = some (h, segment)) (hw : h = .createAccount ∨ h = .createPosting) :
    req.method = .post := by
  unfold dispatch at hd
  obtain ⟨r, hr, hh⟩ := Option.bind_eq_some_iff.mp hd
  obtain ⟨h', hl, heq⟩ := Option.map_eq_some_iff.mp hh
  cases heq
  obtain ⟨front, rest, hsplit, _⟩ := List.lookup_eq_some_iff.mp hl
  have hmem : (req.method.routed, h) ∈ r.1 := by simp [hsplit]
  have hpost := routes_writes hr hmem hw
  cases hm : req.method <;> rw [hm] at hpost <;> simp [Method.routed] at hpost

/-- A handler that only reads keeps the state and acknowledges nothing. -/
theorem handle_reads {h : Handler} {segment : String} {req : Request}
    {state state' : LedgerState} {response : Response} (ha : h ≠ .createAccount)
    (hp : h ≠ .createPosting)
    (hok : handle x digest salt sup h segment req state = .ok (response, state')) :
    state' = state ∧ response.Silent := by
  have hkeeps : ∀ {r}, readOnly state r = .ok (response, state') → state' = state := by
    intro r hr
    cases r with
    | error e => cases hr
    | ok a => cases hr; rfl
  cases h with
  | createAccount => exact absurd rfl ha
  | createPosting => exact absurd rfl hp
  | healthz => exact ⟨hkeeps hok, by cases readOnly_ok hok; simp [Response.Silent]⟩
  | readyz => exact ⟨hkeeps hok, by cases readOnly_ok hok; simp [Response.Silent]⟩
  | chartOfAccounts => exact ⟨hkeeps hok, by cases readOnly_ok hok; simp [Response.Silent]⟩
  | verifyChain => exact ⟨hkeeps hok, by cases readOnly_ok hok; simp [Response.Silent]⟩
  | listAccounts =>
    refine ⟨hkeeps hok, ?_⟩
    obtain ⟨q, _, hr⟩ := bind_ok_iff.mp (readOnly_ok hok)
    cases hr
    simp [Response.Silent]
  | listPostings =>
    refine ⟨hkeeps hok, ?_⟩
    obtain ⟨limit, _, hr⟩ := bind_ok_iff.mp (readOnly_ok hok)
    cases hr
    simp [Response.Silent]
  | userCustodialSum =>
    refine ⟨hkeeps hok, ?_⟩
    obtain ⟨asset, _, hr⟩ := bind_ok_iff.mp (readOnly_ok hok)
    cases hr
    simp [Response.Silent]
  | accountBalance =>
    refine ⟨hkeeps hok, ?_⟩
    obtain ⟨id, _, hr⟩ := bind_ok_iff.mp (readOnly_ok hok)
    obtain ⟨asset, _, hr⟩ := bind_ok_iff.mp hr
    dsimp only at hr
    split at hr <;> cases hr <;> simp [Response.Silent]
  | accountLedger =>
    refine ⟨hkeeps hok, ?_⟩
    obtain ⟨id, _, hr⟩ := bind_ok_iff.mp (readOnly_ok hok)
    obtain ⟨q, _, hr⟩ := bind_ok_iff.mp hr
    split at hr <;> cases hr <;> simp [Response.Silent]
  | getPosting =>
    refine ⟨hkeeps hok, ?_⟩
    obtain ⟨id, _, hr⟩ := bind_ok_iff.mp (readOnly_ok hok)
    split at hr <;> cases hr <;> simp [Response.Silent]

theorem silent_forMethod {r : Response} (h : r.Silent) (m : Method) : (r.forMethod m).Silent := by
  unfold Response.forMethod
  split
  · exact ⟨h.1, by simp⟩
  · exact h

theorem silent_rejected (r : Rejection) : Response.Silent ⟨r.status, .rejected r⟩ := by
  cases r <;> simp [Response.Silent, Rejection.status]

theorem handlers_createAccount (body : String) (state : LedgerState) :
    Handlers.createAccount x sup body state = (x.createAccountRequest body).map fun r =>
      (accountResponse (createAccount sup r state).1, (createAccount sup r state).2) := by
  unfold Handlers.createAccount
  cases x.createAccountRequest body with
  | error e => rfl
  | ok r =>
    dsimp only [bind, Except.bind, Except.map]
    rcases createAccount sup r state with ⟨_ | _, _⟩ <;> rfl

theorem handlers_createPosting (body : String) (state : LedgerState) :
    Handlers.createPosting x digest salt sup body state = (x.postingRequest body).map fun r =>
      (postingResponse (post digest salt sup r state).1, (post digest salt sup r state).2) := by
  unfold Handlers.createPosting
  cases x.postingRequest body with
  | error e => rfl
  | ok r =>
    dsimp only [bind, Except.bind, Except.map]
    rcases post digest salt sup r state with ⟨_ | _, _⟩ <;> rfl

/-- **What a served request does**: it creates an account, it posts, or it keeps the state and
    acknowledges nothing. -/
theorem router_cases (x : Extract) (digest : ByteArray → String) (salt : String) (sup : Supply)
    (req : Request) (state : LedgerState) :
    let out := router x digest salt sup req state
    (∃ r, restCall x sup req.toHttpRequest = some (.createAccount r sup) ∧
      out.response = accountResponse (createAccount sup r state).1 ∧
      out.state = (createAccount sup r state).2) ∨
    (∃ r, restCall x sup req.toHttpRequest = some (.post r sup) ∧
      out.response = postingResponse (post digest salt sup r state).1 ∧
      out.state = (post digest salt sup r state).2) ∨
    (restCall x sup req.toHttpRequest = none ∧ out.response.Silent ∧ out.state = state) := by
  intro out
  cases hd : dispatch req.toHttpRequest with
  | none =>
    refine Or.inr (Or.inr ⟨by unfold restCall; rw [hd], ?_⟩)
    unfold dispatch at hd
    cases hr : routes req.path with
    | none =>
      have hout : out = ⟨⟨404, .empty⟩, none, state⟩ := by simp only [out, router, hr]
      rw [hout]
      exact ⟨⟨by simp, nofun⟩, rfl⟩
    | some r =>
      rw [hr, Option.bind_some, Option.map_eq_none_iff] at hd
      have hout : out = ⟨⟨405, .empty⟩, none, state⟩ := by simp only [out, router, hr, hd]
      rw [hout]
      exact ⟨⟨by simp, nofun⟩, rfl⟩
  | some p =>
    obtain ⟨h, segment⟩ := p
    have hout : out = _ := router_dispatch hd
    by_cases ha : h = .createAccount
    · subst ha
      have hcall : restCall x sup req.toHttpRequest =
          (x.createAccountRequest req.body).toOption.map fun r => .createAccount r sup := by
        unfold restCall
        rw [hd]
      rw [handle, handlers_createAccount] at hout
      cases hx : x.createAccountRequest req.body with
      | error e =>
        rw [hx] at hout hcall
        rw [hout]
        exact Or.inr (Or.inr ⟨hcall, silent_forMethod (silent_rejected e) _, rfl⟩)
      | ok r =>
        rw [hx] at hout hcall
        rw [hout]
        refine Or.inl ⟨r, hcall, ?_, rfl⟩
        rw [dispatch_post hd (Or.inl rfl)]
        rfl
    by_cases hp : h = .createPosting
    · subst hp
      have hcall : restCall x sup req.toHttpRequest =
          (x.postingRequest req.body).toOption.map fun r => .post r sup := by
        unfold restCall
        rw [hd]
      rw [handle, handlers_createPosting] at hout
      cases hx : x.postingRequest req.body with
      | error e =>
        rw [hx] at hout hcall
        rw [hout]
        exact Or.inr (Or.inr ⟨hcall, silent_forMethod (silent_rejected e) _, rfl⟩)
      | ok r =>
        rw [hx] at hout hcall
        rw [hout]
        refine Or.inr (Or.inl ⟨r, hcall, ?_, rfl⟩)
        rw [dispatch_post hd (Or.inr rfl)]
        rfl
    · have hcall : restCall x sup req.toHttpRequest = none := by
        unfold restCall
        rw [hd]
        cases h with
        | createAccount => exact absurd rfl ha
        | createPosting => exact absurd rfl hp
        | _ => rfl
      refine Or.inr (Or.inr ⟨hcall, ?_⟩)
      rw [hout]
      cases hh : handle x digest salt sup h segment req state with
      | error e => exact ⟨silent_forMethod (silent_rejected e) _, rfl⟩
      | ok res =>
        obtain ⟨hkeep, hsilent⟩ := handle_reads ha hp hh
        exact ⟨silent_forMethod hsilent _, hkeep⟩

end Rest

section Grpc

variable {digest : ByteArray → String} {salt : String} {sup : Supply} {g : LedgerGrpc}

/-- What an answer acknowledges: a posting, over either protocol. -/
def ServiceReply.acknowledged : ServiceReply → Option PostingResponse
  | .rest ⟨_, .posting resp⟩ => some resp
  | .grpc (.ok (.posting resp)) =>
    some ⟨resp.postingId, resp.status, resp.entryIds, resp.hashHead⟩
  | _ => none

/-- The gRPC answer to a new account. -/
def accountReply : Except String Account → Except Status GrpcReply
  | .ok account => .ok (.account account.accountId)
  | .error e => .error ⟨.invalidArgument, e⟩

/-- The gRPC answer to a posting. -/
def postingReply : Except PostError (PostingResponse × Bool) → Except Status GrpcReply
  | .ok (resp, _) => .ok (.posting ⟨resp.postingId, resp.status, resp.entryIds, resp.hashHead⟩)
  | .error e => .error ⟨.invalidArgument, e.message⟩

/-- **What a gRPC request does**: it creates an account, it posts, or it keeps the state and
    acknowledges nothing. -/
theorem grpc_cases (g : LedgerGrpc) (digest : ByteArray → String) (salt : String) (sup : Supply)
    (req : GrpcRequest) (state : LedgerState) :
    let out := g.handle digest salt sup req state
    (∃ r, g.call sup req = some (.createAccount r sup) ∧
      out = (accountReply (createAccount sup r state).1, (createAccount sup r state).2)) ∨
    (∃ r, g.call sup req = some (.post r sup) ∧
      out = (postingReply (post digest salt sup r state).1, (post digest salt sup r state).2)) ∨
    (g.call sup req = none ∧ (ServiceReply.grpc out.1).acknowledged = none ∧ out.2 = state) := by
  intro out
  cases req with
  | createAccount caller req =>
    simp only [out, LedgerGrpc.handle, LedgerGrpc.createAccount, LedgerGrpc.call]
    cases g.authorize caller with
    | error e => exact Or.inr (Or.inr ⟨rfl, rfl, rfl⟩)
    | ok u =>
      refine Or.inl ⟨_, rfl, ?_⟩
      dsimp only
      rcases createAccount sup req.request state with ⟨_ | _, _⟩ <;> rfl
  | postPosting caller req =>
    simp only [out, LedgerGrpc.handle, LedgerGrpc.postPosting, LedgerGrpc.call]
    cases g.authorize caller with
    | error e => exact Or.inr (Or.inr ⟨rfl, rfl, rfl⟩)
    | ok u =>
      refine Or.inr (Or.inl ⟨_, rfl, ?_⟩)
      dsimp only
      rcases post digest salt sup req.request state with ⟨_ | _, _⟩ <;> rfl
  | getPosting id =>
    refine Or.inr (Or.inr ⟨rfl, ?_, rfl⟩)
    simp only [out, LedgerGrpc.handle, LedgerGrpc.getPosting]
    cases getPosting state id <;> rfl
  | getBalance id asset =>
    refine Or.inr (Or.inr ⟨rfl, ?_, rfl⟩)
    simp only [out, LedgerGrpc.handle, LedgerGrpc.getBalance]
    cases balance state id (asset.getD "") <;> rfl
  | verifyChain =>
    refine Or.inr (Or.inr ⟨rfl, ?_, rfl⟩)
    simp only [out, LedgerGrpc.handle, LedgerGrpc.verifyChain]
    cases verifyChain digest salt state <;> rfl

end Grpc

/-! ## 3. The service refines the store -/

section Refinement

variable (srv : Server)

/-- One event does to the state what its call does, and nothing without a call. -/
theorem handle_call (e : Event) (state : LedgerState) :
    (srv.handle e state).2 = run (apply srv.digest srv.salt) (srv.call e).toList state := by
  cases e with
  | snapshots sup => rfl
  | rest req sup =>
    simp only [Server.handle, Server.restService, serve_router, Server.call]
    rcases router_cases srv.extract srv.digest srv.salt sup
      { toHttpRequest := req, sharedSecret := srv.secret } state with
      ⟨r, hcall, _, hs⟩ | ⟨r, hcall, _, hs⟩ | ⟨hcall, _, hs⟩
    · rw [hs, hcall]; rfl
    · rw [hs, hcall]; rfl
    · rw [hs, hcall]; rfl
  | grpc req sup =>
    simp only [Server.handle, Server.call]
    rcases grpc_cases srv.grpc srv.digest srv.salt sup req state with
      ⟨r, hcall, hs⟩ | ⟨r, hcall, hs⟩ | ⟨hcall, _, hs⟩
    · rw [hs, hcall]; rfl
    · rw [hs, hcall]; rfl
    · rw [hs, hcall]; rfl

/-- What the store's answer acknowledges. -/
def Answer.response : Answer → Option PostingResponse
  | .posting (.ok (resp, _)) => some resp
  | _ => none

/-- An event acknowledges what the store answers to its call. -/
theorem handle_acknowledged (e : Event) (state : LedgerState) :
    (srv.handle e state).1.acknowledged =
      (srv.call e).bind fun c => (apply srv.digest srv.salt c state).1.response := by
  cases e with
  | snapshots sup => rfl
  | rest req sup =>
    simp only [Server.handle, Server.restService, serve_router, Server.call]
    rcases router_cases srv.extract srv.digest srv.salt sup
      { toHttpRequest := req, sharedSecret := srv.secret } state with
      ⟨r, hcall, hr, _⟩ | ⟨r, hcall, hr, _⟩ | ⟨hcall, hr, _⟩
    · rw [hr, hcall]
      simp only [Option.bind_some, apply]
      cases (createAccount sup r state).1 <;> rfl
    · rw [hr, hcall]
      simp only [Option.bind_some, apply]
      cases (post srv.digest srv.salt sup r state).1 <;> rfl
    · rw [hcall]
      generalize (router srv.extract srv.digest srv.salt sup
        { toHttpRequest := req, sharedSecret := srv.secret } state).response = response at hr
      obtain ⟨status, body⟩ := response
      cases body with
      | posting p => exact absurd rfl (hr.2 p)
      | _ => rfl
  | grpc req sup =>
    simp only [Server.handle, Server.call]
    rcases grpc_cases srv.grpc srv.digest srv.salt sup req state with
      ⟨r, hcall, hr⟩ | ⟨r, hcall, hr⟩ | ⟨hcall, hr, _⟩
    · rw [hr, hcall]
      simp only [Option.bind_some, apply]
      cases (createAccount sup r state).1 <;> rfl
    · rw [hr, hcall]
      simp only [Option.bind_some, apply]
      cases (post srv.digest srv.salt sup r state).1 <;> rfl
    · rw [hr, hcall]
      rfl

/-- A state the service reaches is one the store reaches. -/
theorem service_reachable (events : List Event) :
    Reachable srv.digest srv.salt (run srv.handle events .new) :=
  ⟨events.filterMap srv.call, (run_filterMap (handle_call srv) events .new).symm⟩

/-- A `GET` that is handed to a reading handler gets its answer. -/
theorem handle_get {req : HttpRequest} {sup : Supply} {state state' : LedgerState} {h : Handler}
    {segment : String} {response : Response} (hm : req.method = .get)
    (hd : dispatch req = some (h, segment))
    (hok : handle srv.extract srv.digest srv.salt sup h segment
      { toHttpRequest := req, sharedSecret := srv.secret } state = .ok (response, state')) :
    (srv.handle (.rest req sup) state).1 = .rest response := by
  have hout : router srv.extract srv.digest srv.salt sup
      { toHttpRequest := req, sharedSecret := srv.secret } state = _ := router_dispatch hd
  rw [hok] at hout
  simp only [Server.handle, Server.restService, serve_router, hout]
  simp [Response.forMethod, hm]

/-- **The running service refines the store**: whatever comes over the two protocols and from the
    timer, in whatever order, the ledger is that of the store after the calls of the events, what
    has been acknowledged is what the store has answered, in order, and every check of the chain
    has passed. -/
theorem service_refines (events : List Event) :
    let calls := events.filterMap srv.call
    run srv.handle events .new = runNew srv.digest srv.salt calls ∧
      (outputs srv.handle events .new).filterMap ServiceReply.acknowledged =
        (outputs (apply srv.digest srv.salt) calls .new).filterMap Answer.response ∧
      (∀ (i : Nat) sup, events[i]? = some (.grpc .verifyChain sup) →
        (outputs srv.handle events .new)[i]? = some (.grpc (.ok (.chain true none none)))) ∧
      ∀ (i : Nat) req sup segment, events[i]? = some (.rest req sup) → req.method = .get →
        dispatch req = some (.verifyChain, segment) →
        (outputs srv.handle events .new)[i]? = some (.rest ⟨200, .chain (.ok ())⟩) := by
  intro calls
  have hpasses : ∀ i, verifyChain srv.digest srv.salt (run srv.handle (events.take i) .new) =
      .ok () := fun i => by
    have hinv := reachable_chainInv (service_reachable srv (events.take i))
    exact (verifyChain_ok_iff _).mpr ⟨hinv.linked, hinv.seals⟩
  refine ⟨run_filterMap (handle_call srv) events .new,
    outputs_filterMap (handle_call srv) (handle_acknowledged srv) events .new,
    fun i sup hi => ?_, fun i req sup segment hi hm hd => ?_⟩
  · rw [outputs_getElem?, hi]
    simp only [Option.map_some, Server.handle, LedgerGrpc.handle, LedgerGrpc.verifyChain, hpasses]
  · rw [outputs_getElem?, hi]
    have hok : handle srv.extract srv.digest srv.salt sup .verifyChain segment
        { toHttpRequest := req, sharedSecret := srv.secret }
        (run srv.handle (events.take i) .new) =
          .ok (⟨200, .chain (.ok ())⟩, run srv.handle (events.take i) .new) := by
      simp only [LedgerAccounting.handle, hpasses]
      rfl
    exact congrArg some (handle_get srv hm hd hok)

/-- **What comes up without a database runs as the store does**, under the empty salt and from the
    empty store: nothing of an earlier process is left. Outside development it has a secret. -/
theorem started_serves {digest : ByteArray → String} {env : Env} {o : Outside} {started : Started}
    (hdb : (BootConfig.fromEnv env).dbUrl.isEmpty = true)
    (hboot : boot digest env o = .ok started) (extract : Extract)
    (decode : String → String → Except String Unit) (events : List Event) :
    let srv := mainServer extract decode digest env started
    run srv.handle events started.store.state =
        runNew digest "" (events.filterMap srv.call) ∧
      Reachable digest "" (run srv.handle events started.store.state) ∧
      (env "DEV_MODE" ≠ some "1" → ∃ s, env "SERVICE_TOKEN_SECRET" = some s ∧ s ≠ "") := by
  intro srv
  obtain ⟨_, _, _, secret, _, hsecret, rfl⟩ := (boot_memory_iff hdb started).mp hboot
  refine ⟨run_filterMap (handle_call srv) events .new, service_reachable srv events, fun hdev => ?_⟩
  exact ((secretFromEnv_isOk_iff env).mp ⟨secret, hsecret⟩).resolve_right hdev

end Refinement

/-! ## 4. A service -/

/-- The environment lists two callers, the first with blanks around it. -/
def callersEnv : Env := fun key =>
  if key = "ALLOWED_CALLERS" then some " transaction-orchestrator ,treasury" else none

/-- A service with a secret under which no token decodes. -/
def sampleServer : Server where
  extract := sampleExtract
  decode _ _ := .error "InvalidToken"
  digest := sampleDigest
  salt := sampleSalt
  secret := some "s3cret"
  grpc := runGrpc callersEnv

def samplePosting : PbPostingRequest where
  postingId := "bal1"
  entries := [⟨"uc", "DEBIT", 100, "USD"⟩, ⟨"op", "CREDIT", 100, "USD"⟩]
  memo := some "test"
  refTxId := some "tx1"

/-- The two accounts of the sample run, created over gRPC. -/
def sampleOpening : List Event :=
  [ .grpc (.createAccount (some "treasury")
      ⟨some "uc", "user_custodial", "BOTH", "user_custodial-uc", none⟩) sampleSupply,
    .grpc (.createAccount (some "transaction-orchestrator")
      ⟨some "op", "operational_fiat", "FIAT", "operational_fiat-op", none⟩) sampleSupply ]

/-- The sample posting, over REST. -/
def sampleRestPosting : Event := .rest ⟨.post, "/v1/postings", "", none, ""⟩ sampleSupply

/-- A read of the sample posting, over REST. -/
def sampleRestRead : Event := .rest ⟨.get, "/v1/postings/bal1", "", none, ""⟩ sampleSupply

end LedgerAccounting
