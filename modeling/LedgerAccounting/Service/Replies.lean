/-
  File:      LedgerAccounting/Service/Replies.lean
  Subject:   What the replies of the running service are worth later: acknowledged postings are
             read back over both protocols, and the status 201 marks the REST requests that the
             ledger consists of.

  * `acknowledged_readable`, `retried_alike`: read after write, and retries, over either protocol.
  * `created_counts`: the requests answered 201 are the ones that add a record; the others can be
    left out of a run.
-/
import LedgerAccounting.Memory.Bookkeeping
import LedgerAccounting.Service.Run

namespace LedgerAccounting

open Runs

/-! ## 1. Read after write -/

section Readable

variable {digest : ByteArray → String} {salt : String}

/-- A posting that succeeds was valid and leaves the record it answers with, fresh or replayed. -/
theorem post_leaves {state : LedgerState} (hr : Reachable digest salt state) {sup : Supply}
    {req : PostingRequest} {resp : PostingResponse} {replay : Bool}
    (h : (post digest salt sup req state).1 = .ok (resp, replay)) :
    (∃ parsed, ValidRequest req parsed) ∧ req.postingId = resp.postingId ∧
      ∃ rec, getPosting (post digest salt sup req state).2 resp.postingId = some rec ∧
        rec.response = resp := by
  rcases post_cases digest salt sup req state with
    ⟨e, he⟩ | ⟨parsed, rec, hv, hrec, hp⟩ | ⟨parsed, ha⟩
  · rw [he] at h
    cases h
  · rw [hp] at h ⊢
    cases h
    obtain ⟨recs, hbook⟩ := reachable_bookkeeping hr
    have hid : rec.postingId = req.postingId := ((hbook.recorded _ _).mp hrec).2
    refine ⟨⟨parsed, hv⟩, hid.symm, rec, ?_, rfl⟩
    show state.postings.lookup rec.postingId = some rec
    rw [hid]
    exact hrec
  · obtain ⟨rec, hrec, hresp⟩ := record_response digest salt state req parsed sup
    rw [post_accepted digest salt sup ha] at h ⊢
    cases h
    exact ⟨⟨parsed, ha.valid⟩, rfl, rec, hrec, hresp⟩

variable (srv : Server)

/-- What an event acknowledges is what the store answers to the posting of its call. -/
theorem acknowledged_post {e : Event} {state : LedgerState} {resp : PostingResponse} :
    (srv.handle e state).1.acknowledged = some resp ↔
      ∃ req sup replay, srv.call e = some (.post req sup) ∧
        (post srv.digest srv.salt sup req state).1 = .ok (resp, replay) := by
  rw [handle_acknowledged]
  constructor
  · intro h
    obtain ⟨c, hcall, hc⟩ := Option.bind_eq_some_iff.mp h
    cases c with
    | createAccount r sup => cases hc
    | writeSnapshots sup => cases hc
    | post req sup =>
      cases hp : (post srv.digest srv.salt sup req state).1 with
      | error err =>
        simp only [apply, hp] at hc
        cases hc
      | ok res =>
        simp only [apply, hp] at hc
        cases hc
        exact ⟨req, sup, res.2, hcall, hp⟩
  · rintro ⟨req, sup, replay, hcall, hp⟩
    rw [hcall, Option.bind_some]
    simp only [apply, hp]
    rfl

/-- A posting in the state after one event is there after every later one. -/
theorem service_keeps (events : List Event) {i j : Nat} (hij : i ≤ j) {id : String}
    {rec : PostingRecord} (h : getPosting (run srv.handle (events.take i) .new) id = some rec) :
    getPosting (run srv.handle (events.take j) .new) id = some rec := by
  rw [run_take_drop srv.handle events .new hij, run_filterMap (handle_call srv)]
  exact runFrom_posting _ h

/-- **What an acknowledgement is worth**: the event posted a valid request, and its record is there
    from then on. -/
theorem acknowledged_record (events : List Event) {i : Nat} {resp : PostingResponse}
    (hack : ((outputs srv.handle events .new)[i]?).bind ServiceReply.acknowledged = some resp) :
    ∃ req sup parsed rec, (events[i]?).bind srv.call = some (.post req sup) ∧
      ValidRequest req parsed ∧ req.postingId = resp.postingId ∧ rec.response = resp ∧
      ∀ j, i < j →
        getPosting (run srv.handle (events.take j) .new) resp.postingId = some rec := by
  rw [outputs_getElem?] at hack
  obtain ⟨reply, hreply, hack⟩ := Option.bind_eq_some_iff.mp hack
  obtain ⟨e, he, rfl⟩ := Option.map_eq_some_iff.mp hreply
  obtain ⟨req, sup, replay, hcall, hp⟩ := (acknowledged_post srv).mp hack
  obtain ⟨⟨parsed, hv⟩, hid, rec, hrec, hresp⟩ :=
    post_leaves (service_reachable srv (events.take i)) hp
  have hafter : getPosting (run srv.handle (events.take (i + 1)) .new) resp.postingId =
      some rec := by
    rw [List.take_add_one, he, Option.toList_some, run_concat, handle_call, hcall]
    exact hrec
  refine ⟨req, sup, parsed, rec, ?_, hv, hid, hresp, fun j hij =>
    service_keeps srv events hij hafter⟩
  rw [he, Option.bind_some, hcall]

/-- **Read after write, over either protocol**: a posting that one event of a run has acknowledged,
    over REST or gRPC, fresh or as a replay, has one record with the acknowledged id, status,
    entry ids and head hash, and every later event that asks for it, over REST or gRPC, is
    answered with that record. -/
theorem acknowledged_readable (events : List Event) {i : Nat} {resp : PostingResponse}
    (hack : ((outputs srv.handle events .new)[i]?).bind ServiceReply.acknowledged = some resp) :
    ∃ rec : PostingRecord, rec.response = resp ∧ ∀ j, i < j →
      (∀ sup, events[j]? = some (.grpc (.getPosting resp.postingId) sup) →
        (outputs srv.handle events .new)[j]? = some (.grpc (.ok (.record (postingToPb rec))))) ∧
      ∀ req sup segment, events[j]? = some (.rest req sup) → req.method = .get →
        dispatch req = some (.getPosting, segment) →
        srv.extract.id segment = .ok resp.postingId →
        (outputs srv.handle events .new)[j]? = some (.rest ⟨200, .record rec⟩) := by
  obtain ⟨_, _, _, rec, _, _, _, hresp, hkept⟩ := acknowledged_record srv events hack
  refine ⟨rec, hresp, fun j hij => ⟨fun sup hj => ?_, fun req sup segment hj hm hd hx => ?_⟩⟩
  · rw [outputs_getElem?, hj]
    simp only [Option.map_some, Server.handle, LedgerGrpc.handle, LedgerGrpc.getPosting,
      hkept j hij]
  · rw [outputs_getElem?, hj]
    have hok : handle srv.extract srv.digest srv.salt sup .getPosting segment
        { toHttpRequest := req, sharedSecret := srv.secret }
        (run srv.handle (events.take j) .new) =
          .ok (⟨200, .record rec⟩, run srv.handle (events.take j) .new) := by
      simp only [LedgerAccounting.handle, Handlers.getPosting, hx, bind, Except.bind, hkept j hij]
      rfl
    exact congrArg some (handle_get srv hm hd hok)

end Readable

/-- The sample posting, posted over REST after both accounts were created over gRPC, and read
    back over both. -/
theorem acknowledged_readable_sample :
    ∃ rec : PostingRecord, rec.response = sampleResponse ∧
      (outputs sampleServer.handle (sampleOpening ++ [sampleRestPosting,
        .grpc (.getPosting "bal1") sampleSupply, sampleRestRead]) .new)[3]? =
          some (.grpc (.ok (.record (postingToPb rec)))) ∧
      (outputs sampleServer.handle (sampleOpening ++ [sampleRestPosting,
        .grpc (.getPosting "bal1") sampleSupply, sampleRestRead]) .new)[4]? =
          some (.rest ⟨200, .record rec⟩) := by
  obtain ⟨rec, hresp, hread⟩ := acknowledged_readable sampleServer (sampleOpening ++
    [sampleRestPosting, .grpc (.getPosting "bal1") sampleSupply, sampleRestRead])
    (i := 2) (show _ = some sampleResponse by decide +kernel)
  exact ⟨rec, hresp, (hread 3 (by decide)).1 sampleSupply rfl,
    (hread 4 (by decide)).2 _ _ "bal1" rfl rfl (by decide +kernel) rfl⟩

/-- **Retries are safe over either protocol**: once an event of a run has had a posting
    acknowledged, no later submission under its id, over REST or gRPC and whatever its body,
    changes the ledger, and a later submission of the same request is acknowledged alike. -/
theorem retried_alike (srv : Server) (events : List Event) {i : Nat} {resp : PostingResponse}
    (hack : ((outputs srv.handle events .new)[i]?).bind ServiceReply.acknowledged = some resp)
    {j : Nat} (hij : i < j) {req : PostingRequest} {sup : Supply}
    (hj : (events[j]?).bind srv.call = some (.post req sup))
    (hid : req.postingId = resp.postingId) :
    run srv.handle (events.take (j + 1)) .new = run srv.handle (events.take j) .new ∧
      ∀ sup', (events[i]?).bind srv.call = some (.post req sup') →
        ((outputs srv.handle events .new)[j]?).bind ServiceReply.acknowledged = some resp := by
  obtain ⟨first, _, parsed, rec, hcall, hv, _, hresp, hkept⟩ := acknowledged_record srv events hack
  obtain ⟨e, he, hecall⟩ := Option.bind_eq_some_iff.mp hj
  have hrec := hkept j hij
  rw [← hid] at hrec
  refine ⟨?_, fun sup' hsame => ?_⟩
  · rw [List.take_add_one, he, Option.toList_some, run_concat, handle_call, hecall]
    exact post_recorded_keeps srv.digest srv.salt hrec sup
  · rw [hcall] at hsame
    cases hsame
    rw [outputs_getElem?, he, Option.map_some, Option.bind_some]
    refine (acknowledged_post srv).mpr ⟨req, sup, true, hecall, ?_⟩
    rw [post_replayed srv.digest srv.salt sup hv hrec, hresp]

/-- The sample posting, over REST and then again over gRPC. -/
theorem retried_alike_sample :
    let events := sampleOpening ++
      [sampleRestPosting, .grpc (.postPosting (some "treasury") samplePosting) sampleSupply]
    run sampleServer.handle (events.take 4) .new = run sampleServer.handle (events.take 3) .new ∧
      ((outputs sampleServer.handle events .new)[3]?).bind ServiceReply.acknowledged =
        some sampleResponse := by
  intro events
  have hcall : ∀ k, k = 2 ∨ k = 3 →
      (events[k]?).bind sampleServer.call = some (.post sampleRequest sampleSupply) := by
    rintro k (rfl | rfl) <;> rfl
  have h := retried_alike sampleServer events (i := 2) (j := 3)
    (show _ = some sampleResponse by decide +kernel) (by decide) (hcall 3 (.inr rfl)) rfl
  exact ⟨h.1, h.2 sampleSupply (hcall 2 (.inl rfl))⟩

/-! ## 2. The status 201 -/

/-- How many accounts and postings are recorded. -/
def LedgerState.recorded (state : LedgerState) : Nat :=
  state.accounts.keys.length + state.postings.keys.length

theorem keys_insert_fresh {β : Type} (m : AList fun _ : String => β) {k : String} (v : β)
    (h : m.lookup k = none) : (m.insert k v).keys.length = m.keys.length + 1 := by
  have hmem : k ∉ m.keys := fun hk => by
    have hsome := AList.lookup_isSome.mpr (AList.mem_keys.mpr hk)
    rw [h] at hsome
    cases hsome
  rw [AList.keys_insert, List.erase_of_not_mem hmem, List.length_cons]

section Created

variable {digest : ByteArray → String} {salt : String}

theorem createAccount_counts (sup : Supply) (r : CreateAccountRequest) (state : LedgerState) :
    (createAccount sup r state).2.recorded =
        state.recorded + (if (accountResponse (createAccount sup r state).1).status = 201
          then 1 else 0) ∧
      ((accountResponse (createAccount sup r state).1).status ≠ 201 →
        (createAccount sup r state).2 = state) := by
  rcases createAccount_cases sup r state with ⟨e, he⟩ | ⟨p, acc, _, _, hfresh, hc⟩
  · rw [he]
    exact ⟨rfl, fun _ => rfl⟩
  · rw [hc]
    refine ⟨?_, fun h => absurd rfl h⟩
    simp only [LedgerState.recorded, keys_insert_fresh _ acc hfresh, accountResponse, if_true]
    omega

theorem post_counts (sup : Supply) (r : PostingRequest) (state : LedgerState) :
    (post digest salt sup r state).2.recorded =
        state.recorded + (if (postingResponse (post digest salt sup r state).1).status = 201
          then 1 else 0) ∧
      ((postingResponse (post digest salt sup r state).1).status ≠ 201 →
        (post digest salt sup r state).2 = state) := by
  rcases post_cases digest salt sup r state with ⟨e, he⟩ | ⟨_, rec, _, _, hrec⟩ | ⟨parsed, ha⟩
  · have hne : (postingResponse (.error e)).status ≠ 201 := by
      unfold postingResponse
      dsimp only
      split <;> simp
    rw [he, if_neg hne]
    exact ⟨rfl, fun _ => rfl⟩
  · rw [hrec]
    exact ⟨rfl, fun _ => rfl⟩
  · rw [post_accepted digest salt sup ha]
    refine ⟨?_, fun h => absurd rfl h⟩
    simp only [LedgerState.recorded, record_postings, record_accounts,
      keys_insert_fresh _ _ ha.fresh, postingResponse, Bool.false_eq_true, if_false, if_true]
    omega

variable (srv : Server)

/-- A REST request adds one record when it is answered 201, and does nothing otherwise. -/
theorem rest_counts (req : HttpRequest) (sup : Supply) (state : LedgerState) :
    ∃ response, (srv.handle (.rest req sup) state).1 = .rest response ∧
      (srv.handle (.rest req sup) state).2.recorded =
        state.recorded + (if response.status = 201 then 1 else 0) ∧
      (response.status ≠ 201 → (srv.handle (.rest req sup) state).2 = state) := by
  refine ⟨_, rfl, ?_⟩
  simp only [Server.handle, Server.restService, serve_router]
  rcases router_cases srv.extract srv.digest srv.salt sup
    { toHttpRequest := req, sharedSecret := srv.secret } state with
    ⟨r, _, hr, hs⟩ | ⟨r, _, hr, hs⟩ | ⟨_, hr, hs⟩
  · rw [hr, hs]
    exact createAccount_counts sup r state
  · rw [hr, hs]
    exact post_counts sup r state
  · rw [hs, if_neg hr.1]
    exact ⟨rfl, fun _ => rfl⟩

/-- The events of a run without the REST requests that are not answered 201. -/
def keepCreated : Event → ServiceReply → Bool
  | _, .rest response => response.status == 201
  | _, _ => true

/-- **The status 201 counts the records**: in every run of the service a REST request adds one
    account or one posting when it is answered 201 and leaves the ledger as it is otherwise, and
    without all REST requests that are not answered 201 the run ends in the same ledger and gives
    the same replies to what is left, over both protocols, where each event that is left draws the
    same from outside: its clock, its identifiers, and the order in which its map is visited. -/
theorem created_counts (events : List Event) (state : LedgerState) :
    (∀ (i : Nat) req sup, events[i]? = some (.rest req sup) →
      ∃ response, (outputs srv.handle events state)[i]? = some (.rest response) ∧
        (run srv.handle (events.take (i + 1)) state).recorded =
          (run srv.handle (events.take i) state).recorded +
            (if response.status = 201 then 1 else 0) ∧
        (response.status ≠ 201 → run srv.handle (events.take (i + 1)) state =
          run srv.handle (events.take i) state)) ∧
      let created := kept srv.handle keepCreated events state
      run srv.handle (created.map (·.1)) state = run srv.handle events state ∧
        outputs srv.handle (created.map (·.1)) state = created.map (·.2) := by
  constructor
  · intro i req sup hi
    obtain ⟨response, hresp, hcount, hkeep⟩ :=
      rest_counts srv req sup (run srv.handle (events.take i) state)
    rw [outputs_getElem?, hi, List.take_add_one, hi, Option.toList_some, run_concat]
    exact ⟨response, congrArg some hresp, hcount, hkeep⟩
  · refine run_kept (fun e s hno => ?_) events state
    cases e with
    | snapshots sup => cases hno
    | grpc req sup => cases hno
    | rest req sup =>
      obtain ⟨response, hresp, _, hkeep⟩ := rest_counts srv req sup s
      rw [hresp] at hno
      exact hkeep (by simpa [keepCreated] using hno)

end Created

end LedgerAccounting
