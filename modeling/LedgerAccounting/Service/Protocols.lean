/-
  File:      LedgerAccounting/Service/Protocols.lean
  Subject:   The two protocols of the running service against each other, and the callers gRPC
             admits.

  * `protocols_agree`: which of the two protocols a request takes decides the form of its reply
    and nothing else, except for the time a balance is given.
  * `strangers_idle`: the writes of callers that are not listed leave no trace.
-/
import LedgerAccounting.Service.Run

namespace LedgerAccounting

open Runs

/-! ## 1. One request over two protocols -/

/-- The same request over REST and over gRPC, from an admitted caller, as the extractors read the
    one and the messages carry the other. -/
inductive SameRequest (srv : Server) : Event → Event → Prop where
  | createAccount {req : HttpRequest} {sup : Supply} {segment : String}
      {pb : PbCreateAccountRequest} {caller : Option String}
      (routed : dispatch req = some (.createAccount, segment))
      (reads : srv.extract.createAccountRequest req.body = .ok pb.request)
      (admitted : srv.grpc.authorize caller = .ok ()) :
      SameRequest srv (.rest req sup) (.grpc (.createAccount caller pb) sup)
  | createPosting {req : HttpRequest} {sup : Supply} {segment : String} {pb : PbPostingRequest}
      {caller : Option String} (routed : dispatch req = some (.createPosting, segment))
      (reads : srv.extract.postingRequest req.body = .ok pb.request)
      (admitted : srv.grpc.authorize caller = .ok ()) :
      SameRequest srv (.rest req sup) (.grpc (.postPosting caller pb) sup)
  | getPosting {req : HttpRequest} {sup : Supply} {segment id : String} (get : req.method = .get)
      (routed : dispatch req = some (.getPosting, segment))
      (reads : srv.extract.id segment = .ok id) :
      SameRequest srv (.rest req sup) (.grpc (.getPosting id) sup)
  | getBalance {req : HttpRequest} {sup : Supply} {segment id : String} {asset : Option String}
      (get : req.method = .get) (routed : dispatch req = some (.accountBalance, segment))
      (reads : srv.extract.id segment = .ok id) (asks : srv.extract.asset req.query = .ok asset) :
      SameRequest srv (.rest req sup) (.grpc (.getBalance id asset) sup)
  | verifyChain {req : HttpRequest} {sup : Supply} {segment : String} (get : req.method = .get)
      (routed : dispatch req = some (.verifyChain, segment)) :
      SameRequest srv (.rest req sup) (.grpc .verifyChain sup)
  | same (e : Event) : SameRequest srv e e

/-- The same reply over REST and over gRPC. Of a balance REST gives the time the account was
    created and gRPC the present time. -/
inductive SameReply : ServiceReply → ServiceReply → Prop where
  | account (id : String) : SameReply (.rest ⟨201, .accountId id⟩) (.grpc (.ok (.account id)))
  | posting (resp : PostingResponse) (replay : Bool) :
      SameReply (.rest ⟨if replay then 200 else 201, .posting resp⟩)
        (.grpc (.ok (.posting ⟨resp.postingId, resp.status, resp.entryIds, resp.hashHead⟩)))
  | record (rec : PostingRecord) :
      SameReply (.rest ⟨200, .record rec⟩) (.grpc (.ok (.record (postingToPb rec))))
  | balance (id asset bal asOfTs asOfTs' : String) :
      SameReply (.rest ⟨200, .balance id asset bal asOfTs⟩)
        (.grpc (.ok (.balance id asset bal asOfTs')))
  | intact : SameReply (.rest ⟨200, .chain (.ok ())⟩) (.grpc (.ok (.chain true none none)))
  | broken (b : ChainBreak) :
      SameReply (.rest ⟨200, .chain (.error b)⟩)
        (.grpc (.ok (.chain false (some b.entryId) (some b.reason))))
  | invalid (message : String) :
      SameReply (.rest ⟨400, .error message⟩) (.grpc (.error ⟨.invalidArgument, message⟩))
  | absent (message : String) :
      SameReply (.rest ⟨404, .error message⟩) (.grpc (.error ⟨.notFound, message⟩))
  | same (r : ServiceReply) : SameReply r r

section Parity

variable (srv : Server)

/-- A `POST` that is handed to a writing handler gets its answer and its state. -/
theorem handle_post {req : HttpRequest} {sup : Supply} {state state' : LedgerState} {h : Handler}
    {segment : String} {response : Response} (hd : dispatch req = some (h, segment))
    (hw : h = .createAccount ∨ h = .createPosting)
    (hok : handle srv.extract srv.digest srv.salt sup h segment
      { toHttpRequest := req, sharedSecret := srv.secret } state = .ok (response, state')) :
    srv.handle (.rest req sup) state = (.rest response, state') := by
  have hout : router srv.extract srv.digest srv.salt sup
      { toHttpRequest := req, sharedSecret := srv.secret } state = _ := router_dispatch hd
  rw [hok] at hout
  simp only [Server.handle, Server.restService, serve_router, hout, dispatch_post hd hw]
  rfl

theorem accounts_agree (r : Except String Account) :
    SameReply (.rest (accountResponse r)) (.grpc (accountReply r)) := by
  cases r with
  | error e => exact .invalid e
  | ok account => exact .account account.accountId

theorem postings_agree (r : Except PostError (PostingResponse × Bool)) :
    SameReply (.rest (postingResponse r)) (.grpc (postingReply r)) := by
  cases r with
  | error e => cases e <;> exact .invalid _
  | ok res => exact .posting res.1 res.2

/-- **One step over either protocol**: the same reply and the same ledger. -/
theorem same_step {e e' : Event} (state : LedgerState) (h : SameRequest srv e e') :
    SameReply (srv.handle e state).1 (srv.handle e' state).1 ∧
      (srv.handle e state).2 = (srv.handle e' state).2 := by
  cases h with
  | same => exact ⟨.same _, rfl⟩
  | @createAccount req sup segment pb caller routed reads admitted =>
    have hgrpc : srv.handle (.grpc (.createAccount caller pb) sup) state =
        (.grpc (accountReply (createAccount sup pb.request state).1),
          (createAccount sup pb.request state).2) := by
      simp only [Server.handle, LedgerGrpc.handle, LedgerGrpc.createAccount, admitted]
      rcases createAccount sup pb.request state with ⟨_ | _, _⟩ <;> rfl
    rw [hgrpc, handle_post srv routed (Or.inl rfl) (by
      rw [handle, handlers_createAccount, reads]
      rfl)]
    exact ⟨accounts_agree _, rfl⟩
  | @createPosting req sup segment pb caller routed reads admitted =>
    have hgrpc : srv.handle (.grpc (.postPosting caller pb) sup) state =
        (.grpc (postingReply (post srv.digest srv.salt sup pb.request state).1),
          (post srv.digest srv.salt sup pb.request state).2) := by
      simp only [Server.handle, LedgerGrpc.handle, LedgerGrpc.postPosting, admitted]
      rcases post srv.digest srv.salt sup pb.request state with ⟨_ | _, _⟩ <;> rfl
    rw [hgrpc, handle_post srv routed (Or.inr rfl) (by
      rw [handle, handlers_createPosting, reads]
      rfl)]
    exact ⟨postings_agree _, rfl⟩
  | @getPosting req sup segment id get routed reads =>
    have hkeep : (srv.handle (.rest req sup) state).2 = state := by
      rw [handle_call]
      simp only [Server.call, restCall, routed]
      rfl
    refine ⟨?_, hkeep⟩
    cases hp : getPosting state id with
    | none =>
      rw [handle_get srv get routed (by
        simp only [handle, Handlers.getPosting, reads, bind, Except.bind, hp]
        rfl)]
      simp only [Server.handle, LedgerGrpc.handle, LedgerGrpc.getPosting, hp]
      exact .absent _
    | some rec =>
      rw [handle_get srv get routed (by
        simp only [handle, Handlers.getPosting, reads, bind, Except.bind, hp]
        rfl)]
      simp only [Server.handle, LedgerGrpc.handle, LedgerGrpc.getPosting, hp]
      exact .record _
  | @getBalance req sup segment id asset get routed reads asks =>
    have hkeep : (srv.handle (.rest req sup) state).2 = state := by
      rw [handle_call]
      simp only [Server.call, restCall, routed]
      rfl
    refine ⟨?_, hkeep⟩
    cases hb : balance state id (asset.getD "") with
    | none =>
      rw [handle_get srv get routed (by
        simp only [handle, Handlers.accountBalance, reads, asks, bind, Except.bind, hb]
        rfl)]
      simp only [Server.handle, LedgerGrpc.handle, LedgerGrpc.getBalance, hb]
      exact .absent _
    | some bal =>
      rw [handle_get srv get routed (by
        simp only [handle, Handlers.accountBalance, reads, asks, bind, Except.bind, hb]
        rfl)]
      simp only [Server.handle, LedgerGrpc.handle, LedgerGrpc.getBalance, hb]
      exact .balance _ _ _ _ _
  | @verifyChain req sup segment get routed =>
    have hkeep : (srv.handle (.rest req sup) state).2 = state := by
      rw [handle_call]
      simp only [Server.call, restCall, routed]
      rfl
    refine ⟨?_, hkeep⟩
    rw [handle_get srv get routed (by
      simp only [handle]
      rfl)]
    simp only [Server.handle, LedgerGrpc.handle, LedgerGrpc.verifyChain]
    cases verifyChain srv.digest srv.salt state with
    | error b => exact .broken b
    | ok u => exact .intact

/-- **The protocols agree over whole runs**: two runs of the service that differ only in the
    protocol each request takes, and draw the same from outside, end in the same ledger and give
    the same replies. -/
theorem protocols_agree {events events' : List Event} (state : LedgerState)
    (h : List.Forall₂ (SameRequest srv) events events') :
    List.Forall₂ SameReply (outputs srv.handle events state) (outputs srv.handle events' state) ∧
      run srv.handle events state = run srv.handle events' state :=
  run_forall₂ (fun _ _ s _ hc hs => hs ▸ same_step srv s hc) h rfl

end Parity

/-- The sample posting over REST in one run and over gRPC in the other. -/
theorem protocols_agree_sample :
    List.Forall₂ SameReply
        (outputs sampleServer.handle (sampleOpening ++ [sampleRestPosting, sampleRestRead]) .new)
        (outputs sampleServer.handle (sampleOpening ++
          [.grpc (.postPosting (some "treasury") samplePosting) sampleSupply,
            .grpc (.getPosting "bal1") sampleSupply]) .new) ∧
      run sampleServer.handle (sampleOpening ++ [sampleRestPosting, sampleRestRead]) .new =
        run sampleServer.handle (sampleOpening ++
          [.grpc (.postPosting (some "treasury") samplePosting) sampleSupply,
            .grpc (.getPosting "bal1") sampleSupply]) .new :=
  protocols_agree sampleServer .new (.cons (.same _) (.cons (.same _)
    (.cons (.createPosting (show dispatch _ = some (.createPosting, "") by decide +kernel) rfl
        (by decide +kernel))
      (.cons (.getPosting rfl (by decide +kernel) rfl) .nil))))

/-! ## 2. Callers that are not listed -/

/-- The caller a writing gRPC event gives, `none` for every other event. -/
def Event.caller : Event → Option (Option String)
  | .grpc (.createAccount caller _) _ => some caller
  | .grpc (.postPosting caller _) _ => some caller
  | _ => none

/-- The events of a run without the writes of callers that are none of the names. -/
def keepListed (names : List String) (e : Event) (_ : ServiceReply) : Bool :=
  e.caller.all fun caller => names.any fun name => caller == some name

/-- What a caller that is not listed is answered. -/
def stranger : Status := ⟨.unauthenticated, "caller is not an authorized orchestrator"⟩

section Callers

variable {srv : Server} {e : Event} {caller : Option String} {state : LedgerState}

theorem authorize_cases (g : LedgerGrpc) (caller : Option String) :
    g.authorize caller = .ok () ∨ g.authorize caller = .error stranger := by
  unfold LedgerGrpc.authorize
  cases caller with
  | none => exact Or.inr rfl
  | some c =>
    dsimp only
    split
    · exact Or.inl rfl
    · exact Or.inr rfl

/-- A refused write does nothing. -/
theorem handle_refused (hc : e.caller = some caller)
    (h : srv.grpc.authorize caller = .error stranger) :
    srv.handle e state = (.grpc (.error stranger), state) := by
  cases e with
  | rest req sup => cases hc
  | snapshots sup => cases hc
  | grpc req sup =>
    cases req with
    | createAccount caller' req =>
      cases hc
      simp only [Server.handle, LedgerGrpc.handle, LedgerGrpc.createAccount, h]
    | postPosting caller' req =>
      cases hc
      simp only [Server.handle, LedgerGrpc.handle, LedgerGrpc.postPosting, h]
    | getPosting id => cases hc
    | getBalance id asset => cases hc
    | verifyChain => cases hc

/-- An admitted write is not answered as a stranger's. -/
theorem handle_admitted (hc : e.caller = some caller) (h : srv.grpc.authorize caller = .ok ()) :
    (srv.handle e state).1 ≠ .grpc (.error stranger) := by
  have haccount : ∀ r, accountReply r ≠ .error stranger := by
    intro r
    cases r <;> simp [accountReply, stranger]
  have hposting : ∀ r, postingReply r ≠ .error stranger := by
    intro r
    cases r <;> simp [postingReply, stranger]
  cases e with
  | rest req sup => cases hc
  | snapshots sup => cases hc
  | grpc req sup =>
    simp only [Server.handle, ne_eq, ServiceReply.grpc.injEq]
    rcases grpc_cases srv.grpc srv.digest srv.salt sup req state with
      ⟨r, _, hr⟩ | ⟨r, _, hr⟩ | ⟨hcall, _, _⟩
    · rw [hr]
      exact haccount _
    · rw [hr]
      exact hposting _
    · cases req with
      | createAccount caller' req =>
        cases hc
        simp only [LedgerGrpc.call, h] at hcall
        cases hcall
      | postPosting caller' req =>
        cases hc
        simp only [LedgerGrpc.call, h] at hcall
        cases hcall
      | getPosting id => cases hc
      | getBalance id asset => cases hc
      | verifyChain => cases hc

/-- The callers `run_grpc` admits are the listed names. -/
theorem authorize_listed {env : Env} {names : List String} (hne : names ≠ [])
    (henv : Lists ((env "ALLOWED_CALLERS").getD
      "transaction-orchestrator,treasury-orchestration") names) (caller : Option String) :
    (runGrpc env).authorize caller = .ok () ↔ ∃ name ∈ names, caller = some name := by
  rw [authorize_ok_iff]
  simp only [runGrpc, allowedCallers, splitCallers_lists hne henv]

end Callers

/-- **Callers that are not listed leave no trace**: when the environment lists names, separated by
    commas and with any white space around them, every write of another caller is answered
    UNAUTHENTICATED, and the run without these writes ends in the same ledger and gives the same
    replies to everything else, where each event that is left draws the same from outside. -/
theorem strangers_idle (srv : Server) {env : Env} {names : List String} (hne : names ≠ [])
    (henv : Lists ((env "ALLOWED_CALLERS").getD
      "transaction-orchestrator,treasury-orchestration") names) (hsrv : srv.grpc = runGrpc env)
    (events : List Event) (state : LedgerState) :
    (∀ (i : Nat) e caller, events[i]? = some e → e.caller = some caller →
      ((outputs srv.handle events state)[i]? = some (.grpc (.error stranger)) ↔
        ∀ name ∈ names, caller ≠ some name)) ∧
      let listed := kept srv.handle (keepListed names) events state
      run srv.handle (listed.map (·.1)) state = run srv.handle events state ∧
        outputs srv.handle (listed.map (·.1)) state = listed.map (·.2) := by
  have hadmits := fun caller => hsrv ▸ authorize_listed hne henv caller
  constructor
  · intro i e caller hi hc
    rw [outputs_getElem?, hi, Option.map_some, Option.some.injEq]
    rcases authorize_cases srv.grpc caller with hok | hno
    · obtain ⟨name, hname, hcaller⟩ := (hadmits caller).mp hok
      exact iff_of_false (handle_admitted hc hok) fun h => h name hname hcaller
    · rw [handle_refused hc hno]
      refine iff_of_true rfl fun name hname hcaller => ?_
      have hok := (hadmits caller).mpr ⟨name, hname, hcaller⟩
      rw [hno] at hok
      cases hok
  · refine run_kept (fun e s hno => ?_) events state
    -- what is left out gives a caller, and none of the names is that caller
    unfold keepListed at hno
    cases hc : e.caller with
    | none =>
      rw [hc] at hno
      cases hno
    | some caller =>
      rw [hc, Option.all_some] at hno
      rcases authorize_cases srv.grpc caller with hok | hrefused
      · obtain ⟨name, hname, hcaller⟩ := (hadmits caller).mp hok
        have hany : (names.any fun name => caller == some name) = true :=
          List.any_eq_true.mpr ⟨name, hname, beq_iff_eq.mpr hcaller⟩
        rw [hno] at hany
        cases hany
      · rw [handle_refused hc hrefused]

/-- The sample environment lists its two callers. -/
theorem callersEnv_lists : Lists ((callersEnv "ALLOWED_CALLERS").getD
    "transaction-orchestrator,treasury-orchestration") ["transaction-orchestrator", "treasury"] :=
  ⟨[" transaction-orchestrator ", "treasury"], by decide +kernel,
    .cons ⟨⟨by simp [isWhitespace], by simp [isWhitespace]⟩, by simp, [' '], [' '],
        by simp [isWhitespace], by simp [isWhitespace], by decide +kernel⟩
      (.cons ⟨⟨by simp [isWhitespace], by simp [isWhitespace]⟩, by simp, [], [], by simp, by simp,
        by decide +kernel⟩ .nil)⟩

/-- A stranger's posting between the sample posting and its read. -/
theorem strangers_idle_sample :
    let events := sampleOpening ++
      [.grpc (.postPosting (some "nobody") samplePosting) sampleSupply, sampleRestRead]
    (outputs sampleServer.handle events .new)[2]? = some (.grpc (.error stranger)) ∧
      (let listed := kept sampleServer.handle
        (keepListed ["transaction-orchestrator", "treasury"]) events .new
      run sampleServer.handle (listed.map (·.1)) .new = run sampleServer.handle events .new ∧
        outputs sampleServer.handle (listed.map (·.1)) .new = listed.map (·.2)) := by
  intro events
  have h := strangers_idle sampleServer (by decide) callersEnv_lists rfl events .new
  exact ⟨(h.1 2 _ (some "nobody") rfl rfl).mpr (by decide), h.2⟩

end LedgerAccounting
