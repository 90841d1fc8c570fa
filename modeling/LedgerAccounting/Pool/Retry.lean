/-
  File:      LedgerAccounting/Pool/Retry.lean
  Subject:   Failed posts with a pool, in calls that do not overlap: they change nothing unless
             their commit was applied, and a retry in which nothing fails finds or books the
             posting.

  * `failed_post_keeps`: a post that fails without a commit leaves everything as it was.
  * `retry_answers`: the retry returns the ids of the one set of rows of the posting.
  * `failed_posts_retriable`: the guarantee.
-/
import LedgerAccounting.Pool.Returns
import LedgerAccounting.Memory.AppendOnly

namespace LedgerAccounting

open Script

/-- The request passes every check on the tables, and its posting is not there. -/
structure Acceptable (t : Tables) (req : PostingRequest) (parsed : List ParsedEntry) : Prop where
  valid : ValidRequest req parsed
  lacks : ¬ t.HasPosting req.postingId
  accounts : checkRows t parsed = .ok ()

section Retry

variable {digest : ByteArray → String} {salt : String} {calls : Nat → PoolCall} {clean : Prop}
  {replica : Nat → Nat} {base : Tables} {inner : Nat → LedgerState} {w v w' : World}
  {answers errs : List (Except PostError (PostingResponse × Bool))}

/-! ## 1. A post that fails -/

/-- **A post that fails without a commit leaves everything as it was.** -/
theorem failed_post_keeps {call : PoolCall} {i : Nat} {e : PostError}
    (h : PostOutcome digest salt call clean replica i w (.error e) w') (hlog : w'.log = w.log) :
    w'.db = w.db ∧ w'.txs = w.txs ∧ w'.inner = w.inner ∧ w'.emitted = w.emitted := by
  cases h with
  | refused e why => exact ⟨rfl, rfl, rfl, rfl⟩
  | abandoned e rd dirty => exact ⟨rfl, rfl, rfl, rfl⟩
  | unacknowledged e parsed rd dirty fresh =>
    have hlen := congrArg List.length hlog
    simp [World.committed, World.readLastHash] at hlen

/-- A post in which nothing fails answers an acceptable request with `Ok`, even when an attempt
    before it has committed the posting. -/
theorem clean_post_ok {call : PoolCall} {i : Nat} {r : Except PostError (PostingResponse × Bool)}
    {parsed : List ParsedEntry} (hvalid : validateRequest call.sup call.req = .ok parsed)
    (haccounts : checkRows w.db parsed = .ok ())
    (h : PostOutcome digest salt call True replica i w r w') : ∃ a, r = .ok a := by
  cases h with
  | refused e why =>
    rcases why trivial with herr | ⟨parsed', hv, _, herr⟩
    · rw [hvalid] at herr
      cases herr
    · rw [hvalid] at hv
      cases hv
      rw [haccounts] at herr
      cases herr
  | abandoned e rd dirty => exact absurd trivial dirty
  | replayed parsed row entries valid found ordered => exact ⟨_, rfl⟩
  | unacknowledged e parsed rd dirty fresh => exact absurd trivial dirty
  | posted parsed rd fresh => exact ⟨_, rfl⟩

/-! ## 2. Attempts of one request -/

/-- The tables hold one set of rows for the request: those of one transaction, which book it and
    carry the given ids. -/
structure BookedOnce (w : World) (req : PostingRequest) (ids : List String) : Prop where
  once : ∃ (k : Nat) (c : Commit), w.log[k]? = some c ∧ c.Touches req.postingId ∧
    (∀ (j : Nat) (d : Commit), w.log[j]? = some d → d.Touches req.postingId → j = k) ∧
    entriesOf w.db.entries req.postingId = c.tables.entries
  booked : req.BookedAs ((entriesOf w.db.entries req.postingId).map (·.record))
  ids : ∀ rows, Ordered (entriesOf w.db.entries req.postingId) rows → ids = rows.map (·.entryId)

/-- The rows of a fresh posting book its request. -/
theorem booked_bookedAs {call : PoolCall} {parsed : List ParsedEntry} {m : Nat} {h : String}
    {t : Tables} (hb : Booked digest salt call parsed m h t)
    (hv : validateRequest call.sup call.req = .ok parsed) :
    call.req.BookedAs (t.entries.map (·.record)) := by
  have hmade := (memoryLoop_spec : LoopSpec digest salt (call.sup.nowIso 0) call.req.postingId m h
    call.sup parsed (memoryLoop digest salt call m h parsed)).made
  rw [booked_records hb hv]
  exact made_bookedAs ((validateRequest_ok_iff _ _ _).mp hv) hmade

/-- Rows that the constraints of the schema admit lack what the postings lack. -/
theorem lacks_of_keys (hkeys : ∀ e ∈ base.entries, base.HasPosting e.postingId) {id : String}
    (h : ¬ base.HasPosting id) : base.Lacks id := by
  refine ⟨h, fun e he heq => h ?_⟩
  rw [← heq]
  exact hkeys e he

/-- **An answer after a state that lacked the posting is that of one transaction of the calls
    since**, if all of these make the request. -/
theorem booked_once (hkeys : ∀ e ∈ base.entries, base.HasPosting e.postingId)
    (h : Sequential digest salt calls clean replica base inner answers w)
    {req : PostingRequest} (hlacks : ¬ w.db.HasPosting req.postingId)
    (hmore : PostsFrom digest salt calls clean replica answers.length w errs v)
    (hreq : ∀ k, answers.length ≤ k → k < answers.length + errs.length → (calls k).req = req)
    {k : Nat} (hk : k < errs.length) {a : PostingResponse × Bool} (ha : errs[k] = .ok a) :
    BookedOnce v req a.1.entryIds := by
  have hmore' : PostsFrom digest salt calls clean replica (0 + answers.length) w errs v := by
    rw [Nat.zero_add]
    exact hmore
  obtain ⟨threads, hreach, hdone, _⟩ := Sequential.interleaved (h.append hmore')
  obtain ⟨hI, hanswered⟩ := interleaved_sound hreach
  have hbase : w.base = base := h.poolInv.2
  obtain ⟨hb, rest, hlog, hrest⟩ := hmore.commits (h.idle rfl)
  have hnone : v.base.Lacks req.postingId := by
    rw [hb, hbase]
    refine lacks_of_keys hkeys fun hin => hlacks ?_
    unfold World.db
    rw [tablesAfter_hasPosting, hbase]
    exact Or.inl hin
  have hi : answers.length + k < (answers ++ errs).length := by
    rw [List.length_append]
    omega
  have hresult : (threads (answers.length + k)).result = some (.ok a) := by
    rw [hdone _ hi, List.getElem_append_right (Nat.le_add_right _ _)]
    simp only [Nat.add_sub_cancel_left, ha]
    rfl
  have hcall := hreq (answers.length + k) (Nat.le_add_right _ _) (by omega)
  have hans := hanswered _ a hresult
  rw [hcall] at hans
  obtain ⟨c, hc, hid, hresponse, _⟩ := hans hnone
  have hnew : c ∈ rest := by
    rw [hlog] at hc
    refine (List.mem_append.mp hc).resolve_left fun hin => hlacks ?_
    exact (tablesAfter_hasPosting _ _ _).mpr (Or.inr ⟨c, hin, hid⟩)
  obtain ⟨n, hn⟩ := List.mem_iff_getElem?.mp hc
  obtain ⟨parsed, m, g, hmade⟩ := hI.made n c hn
  have hrows := entriesOf_committed hI hnone hc hid
  refine ⟨⟨n, c, hn, Or.inl hid, fun j d hj hd => touches_once hI hj hn hd (Or.inl hid), hrows⟩,
    ?_, fun rows hrows => response_committed hI hnone hc hid hresponse hrows⟩
  obtain ⟨hlow, hhigh, _⟩ := hrest c hnew
  have hbooked := booked_bookedAs hmade.booked hmade.valid
  rw [hreq _ hlow hhigh] at hbooked
  rw [hrows]
  exact hbooked

end Retry

/-! ## 3. The guarantee -/

/-- **Failed posts are atomic and retriable.** After any run of calls that do not overlap, with any
    of their statements failing: a post that fails without a commit leaves the tables and the caches
    of all replicas as they were; and after any number of attempts of an acceptable request, an
    attempt in which nothing fails returns `Ok`, with the ids of the one set of rows that books the
    request. Such an attempt can be made whenever its identifiers are new. -/
theorem failed_posts_retriable (digest : ByteArray → String) (salt : String)
    (calls : Nat → PoolCall) (replica : Nat → Nat) (base : Tables) (inner : Nat → LedgerState)
    (hkeys : ∀ e ∈ base.entries, base.HasPosting e.postingId)
    (answers : List (Except PostError (PostingResponse × Bool))) (w : World)
    (h : Sequential digest salt calls False replica base inner answers w) :
    (∀ e w', Ran (ExecIf False replica answers.length) (postPool digest salt
        (calls answers.length).sup (calls answers.length).sink (calls answers.length).req) w
        (.error e) w' → w'.log = w.log →
      w'.db = w.db ∧ w'.txs = w.txs ∧ w'.inner = w.inner ∧ w'.emitted = w.emitted) ∧
    ∀ req parsed, Acceptable w.db req parsed → ∀ attempts v,
      PostsFrom digest salt calls False replica answers.length w attempts v →
      (∀ k, answers.length ≤ k → k ≤ answers.length + attempts.length → (calls k).req = req) →
      let n := answers.length + attempts.length
      (∀ r v', Ran (ExecIf True replica n)
          (postPool digest salt (calls n).sup (calls n).sink (calls n).req) v r v' →
        ∃ a, r = .ok a ∧ BookedOnce v' req a.1.entryIds) ∧
      (FreshIds v.db (calls n).sup req.entries.length →
        ∃ r v', Ran (ExecIf True replica n)
          (postPool digest salt (calls n).sup (calls n).sink (calls n).req) v r v') := by
  refine ⟨fun e w' hran hlog => failed_post_keeps (h.outcome rfl hran) hlog, ?_⟩
  intro req parsed hacc attempts v hattempts hreq n
  have hidle : v.txs = ∅ := hattempts.idle (h.idle rfl)
  have hn : (calls n).req = req := hreq n (Nat.le_add_right _ _) le_rfl
  refine ⟨fun r v' hran => ?_, fun hids => ?_⟩
  · have hvalid : validateRequest (calls n).sup (calls n).req = .ok parsed := by
      rw [hn]
      exact (validateRequest_ok_iff _ _ _).mpr hacc.valid
    have haccounts : checkRows v.db parsed = .ok () := by
      rw [checkRows_congr (hattempts.accounts (h.idle rfl))]
      exact hacc.accounts
    obtain ⟨a, rfl⟩ := clean_post_ok hvalid haccounts (hattempts.outcome (h.idle rfl) hran)
    have hall : PostsFrom digest salt calls False replica answers.length w
        (attempts ++ [.ok a]) v' :=
      .post hattempts (hran.imp fun _ _ _ _ he => ⟨he.1, False.elim⟩)
    refine ⟨a, rfl, booked_once hkeys h hacc.lacks hall (fun k hlow hhigh => ?_)
      (k := attempts.length) (a := a) (by simp) (by simp)⟩
    rw [List.length_append, List.length_singleton] at hhigh
    exact hreq k hlow (by omega)
  · rw [← hn] at hids
    exact postPool_returns hidle hids

/-! ## 4. A commit that is applied and reported as failed -/

/-- Every statement succeeds, and the commit is reported as failed. -/
def execUnacked (i : Nat) : (o : Stmt) → World → Option (Reply o × World)
  | .commit, w => (w.txs.lookup i).map fun t => (.error "connection reset", w.applyCommit i t)
  | o, w => exec id i o w

theorem execUnacked_sound (i : Nat) (o : Stmt) (w : World) (r : Reply o) (w' : World)
    (h : execUnacked i o w = some (r, w')) : ExecIf False id i o w r w' := by
  refine ⟨?_, False.elim⟩
  unfold execUnacked at h
  split at h
  · obtain ⟨t, ht, hpair⟩ := Option.map_eq_some_iff.mp h
    cases hpair
    exact Or.inr ⟨t, ht, rfl⟩
  · exact exec_sound id i _ w r w' h

/-- The call of session `i`, with the request of Run.lean. -/
def sampleAttempt (i : Nat) : Script Stmt Reply (Except PostError (PostingResponse × Bool)) :=
  postPool sampleDigest sampleSalt (sampleTwice i).sup (sampleTwice i).sink (sampleTwice i).req

def sampleUnacked : Except PostError (PostingResponse × Bool) × World :=
  (runAlone (execUnacked 0) (sampleAttempt 0) (World.start sampleTables fun _ => .new)).get
    (by decide +kernel)

/-- The retry, with nothing failing. -/
def sampleRetry : Except PostError (PostingResponse × Bool) × World :=
  (runAlone (exec id 1) (sampleAttempt 1) sampleUnacked.2).get (by decide +kernel)

def sampleParsed : List ParsedEntry :=
  [⟨"uc", .debit, 100, "USD"⟩, ⟨"op", .credit, 100, "USD"⟩]

/-- The attempt fails although its posting is committed; the retry returns the committed ids. -/
theorem failed_posts_retriable_sample :
    sampleUnacked.1 = .error (dbError "post: commit" "connection reset") ∧
    sampleRetry.1 = .ok (sampleResponse, true) ∧
    ∃ a, sampleRetry.1 = .ok a ∧ BookedOnce sampleRetry.2 sampleRequest a.1.entryIds := by
  have hattempt : PostsFrom sampleDigest sampleSalt sampleTwice False id 0
      (World.start sampleTables fun _ => .new) [sampleUnacked.1] sampleUnacked.2 :=
    .post .start (ran_runAlone (execUnacked_sound 0) _ _ _)
  have haccepted : Acceptable sampleTables sampleRequest sampleParsed :=
    ⟨(validateRequest_ok_iff sampleSupply _ _).mp (by decide +kernel), by decide +kernel,
      by decide +kernel⟩
  refine ⟨by decide +kernel, by decide +kernel, ?_⟩
  exact ((failed_posts_retriable sampleDigest sampleSalt sampleTwice id sampleTables (fun _ => .new)
    (fun _ he => absurd he List.not_mem_nil) [] _ .start).2 sampleRequest sampleParsed haccepted _ _
    hattempt fun _ _ _ => rfl).1 _ _ (ran_runAlone (exec_clean True id 1) _ _ _)

end LedgerAccounting
