/-
  File:      LedgerAccounting/Pool/Audit.lean
  Subject:   The audit events of the committed postings, in every run of the cluster.

  * `postPool_shape`: what a call does up to its commit, and after it.
  * `cluster_tracked`: the events recorded and handed over are those of the calls, by how far each
    call has come.
  * `postings_audited_iff`: when every committed posting has exactly one event.
  * `retried_posting_unaudited`: a posting without an event.
-/
import LedgerAccounting.Pool.Cluster
import LedgerAccounting.Pool.Retry
import LedgerAccounting.Lib.Shape

namespace LedgerAccounting

open Script

/-! ## 1. The shape of a call -/

/-- The statement commits nothing and touches neither the caches nor the audit sink. -/
def Stmt.Quiet : Stmt → Prop
  | .commit => False
  | .cache _ => False
  | .emit _ => False
  | _ => True

/-- What is left of a call is to hand the event to the sink, if there is one. -/
def AtHandOver (sink : Bool) (e : AuditEvent) (p : PostScript) : Prop :=
  if sink then ∃ k, p = .call (.emit e) k ∧ ∀ u, ∃ a, k u = .ret a else ∃ a, p = .ret a

/-- The call records its event next. -/
def AtRecord (sink : Bool) (id : String) (p : PostScript) : Prop :=
  ∃ e k, p = .call (.cache fun state => state.pushAudit e) k ∧ e.postingId = id ∧
    ∀ u, AtHandOver sink e (k u)

/-- The call updates its cache next. -/
def AtCache (sink : Bool) (id : String) (p : PostScript) : Prop :=
  ∃ f k, p = .call (.cache f) k ∧ (∀ state, (f state).auditEvents = state.auditEvents) ∧
    ∀ u, AtRecord sink id (k u)

/-- The call commits next; it ends if the commit is reported as failed. -/
def AtCommit (sink : Bool) (id : String) (p : PostScript) : Prop :=
  ∃ k, p = .call .commit k ∧ (∀ e, ∃ a, k (.error e) = .ret a) ∧ AtCache sink id (k (.ok ()))

section Shape

theorem only_issue {o : Stmt} (h : o.Quiet) : Only Stmt.Quiet (issue o) := only_perform h

theorem only_query {α : Type} {context : String} {p : Script Stmt Reply (Except String α)}
    (h : Only Stmt.Quiet p) : Only Stmt.Quiet (query context p).run :=
  Only.bind h fun _ => .ret _

theorem only_step {α : Type} {p : Script Stmt Reply α} (h : Only Stmt.Quiet p) :
    Only Stmt.Quiet (step p).run :=
  Only.bind h fun _ => .ret _

theorem only_orRollback {α : Type} {p : Db α} (h : Only Stmt.Quiet p.run) :
    Only Stmt.Quiet (orRollback p).run := by
  refine Only.bind h fun r => ?_
  cases r with
  | ok a => exact .ret _
  | error e => exact Only.bind (only_issue trivial) fun _ => .ret _

theorem only_replayFromDb (id : String) (row : PostingRow) :
    Only Stmt.Quiet (replayFromDb id row).run :=
  Only.ok_bind (only_query (only_issue trivial)) fun _ => .ret _

theorem only_fetchExisting (id : String) : Only Stmt.Quiet (fetchExisting id).run := by
  refine Only.ok_bind (only_query (only_issue trivial)) fun found => ?_
  cases found with
  | none => exact .ret _
  | some row => exact .ret _

theorem only_checkActiveDb (p : ParsedEntry) : Only Stmt.Quiet (checkActiveDb p).run := by
  refine Only.ok_bind (only_query (only_issue trivial)) fun found => ?_
  cases found with
  | none => exact .ret _
  | some status =>
    dsimp only
    split
    · exact .ret _
    · exact .ret _

theorem only_checkDirectionDb (p : ParsedEntry) : Only Stmt.Quiet (checkDirectionDb p).run := by
  refine Only.ok_bind (only_query (only_issue trivial)) fun found => ?_
  cases found with
  | none => exact .ret _
  | some typeName => exact .ret _

theorem only_insertEntries (n : Nat) (entries : List EntryRecord) :
    Only Stmt.Quiet (insertEntries n entries).run := by
  induction entries generalizing n with
  | nil => exact .ret _
  | cons e rest ih =>
    refine Only.ok_bind (only_query (only_issue trivial)) fun _ => ?_
    exact Only.ok_bind (ih (n + 1)) fun _ => .ret _

theorem only_insertPosting (req : PostingRequest) (now : String) (l : HashLoop) :
    Only Stmt.Quiet (insertPosting req now l).run := by
  refine Only.ok_bind (only_query (only_issue trivial)) fun rows => ?_
  by_cases hrows : rows = 0
  · rw [if_pos hrows]
    exact .ret _
  · rw [if_neg hrows]
    refine Only.ok_bind (only_query (only_issue trivial)) fun m => ?_
    refine Only.ok_bind (only_insertEntries _ _) fun numbered => ?_
    exact Only.ok_bind (only_query (only_issue trivial)) fun _ => .ret _

variable (digest : ByteArray → String) (salt : String)

theorem postFresh_shape (sup : Supply) (sink : Bool) (req : PostingRequest)
    (parsed : List ParsedEntry) : Until Stmt.Quiet (AtCommit sink req.postingId)
      (postFresh digest salt sup sink req parsed).run := by
  refine Until.ok_after (only_step (Only.bind (only_issue trivial) fun _ => .ret _)) fun h => ?_
  refine Until.ok_after (only_query (only_issue trivial)) fun _ => ?_
  refine Until.ok_after (only_orRollback (only_insertPosting _ _ _)) fun found => ?_
  cases found with
  | none =>
    refine Only.until (Only.ok_bind (only_step (only_issue trivial)) fun _ => ?_)
    exact Only.ok_bind (only_fetchExisting _) fun row => only_replayFromDb _ row
  | some numbered =>
    refine .arrived ⟨_, rfl, fun e => ⟨_, rfl⟩, _, _, rfl, fun state => rfl, fun _ => ?_⟩
    refine ⟨_, _, rfl, rfl, fun _ => ?_⟩
    cases sink with
    | false => exact ⟨_, rfl⟩
    | true => exact ⟨_, rfl, fun _ => ⟨_, rfl⟩⟩

/-- **A call commits at most once, and records and hands over its event right after the commit**:
    before it, and on every other way, it does neither. -/
theorem postPool_shape (sup : Supply) (sink : Bool) (req : PostingRequest) :
    Until Stmt.Quiet (AtCommit sink req.postingId) (postPool digest salt sup sink req) := by
  unfold postPool
  cases validateRequest sup req with
  | error e => exact .ret _
  | ok parsed =>
    refine Until.ok_after (only_query (only_issue trivial)) fun found => ?_
    cases found with
    | some row => exact Only.until (only_replayFromDb _ row)
    | none =>
      refine Until.ok_after (only_forM only_checkActiveDb parsed) fun _ => ?_
      refine Until.ok_after (only_forM only_checkDirectionDb parsed) fun _ => ?_
      exact postFresh_shape digest salt sup sink req parsed

end Shape

/-! ## 2. What the statements record and hand over -/

section Statements

variable {replica : Nat → Nat} {i : Nat} {w w' : World}

/-- **A quiet statement commits, records and hands over nothing.** -/
theorem exec_quiet {o : Stmt} {r : Reply o} (he : Exec replica i o w r w') (hq : o.Quiet) :
    w'.log = w.log ∧ w'.inner = w.inner ∧ w'.emitted = w.emitted := by
  cases o with
  | selectPosting id => rw [he.1]; exact ⟨rfl, rfl, rfl⟩
  | selectEntriesOf id => rw [he.1]; exact ⟨rfl, rfl, rfl⟩
  | selectStatus id => rw [he.1]; exact ⟨rfl, rfl, rfl⟩
  | selectTypeName id => rw [he.1]; exact ⟨rfl, rfl, rfl⟩
  | selectMaxSequence => rw [he.1]; exact ⟨rfl, rfl, rfl⟩
  | selectEntries => rw [he.1]; exact ⟨rfl, rfl, rfl⟩
  | selectLastHash => rw [he.1]; exact ⟨rfl, rfl, rfl⟩
  | begin =>
    rcases he with ⟨_, _, rfl⟩ | ⟨_, rfl⟩
    · exact ⟨rfl, rfl, rfl⟩
    · exact ⟨rfl, rfl, rfl⟩
  | insertPosting row =>
    rcases he with ⟨_, _, rfl⟩ | ⟨t, _, ⟨_, _, rfl⟩ | ⟨_, _, rfl⟩⟩
    · exact ⟨rfl, rfl, rfl⟩
    · exact ⟨rfl, rfl, rfl⟩
    · exact ⟨rfl, rfl, rfl⟩
  | insertEntry row =>
    rcases he with ⟨_, _, rfl⟩ | ⟨t, _, _, _, rfl⟩
    · exact ⟨rfl, rfl, rfl⟩
    · exact ⟨rfl, rfl, rfl⟩
  | insertAnchor row =>
    rcases he with ⟨_, _, rfl⟩ | ⟨t, _, _, _, ⟨_, rfl⟩ | ⟨_, rfl⟩⟩
    · exact ⟨rfl, rfl, rfl⟩
    · exact ⟨rfl, rfl, rfl⟩
    · exact ⟨rfl, rfl, rfl⟩
  | commit => exact hq.elim
  | rollback => rw [he]; exact ⟨rfl, rfl, rfl⟩
  | cache f => exact hq.elim
  | emit event => exact hq.elim

theorem unacknowledged_quiet {o : Stmt} {r : Reply o} (h : o ≠ .commit) :
    unacknowledged o r w w' = false := by
  cases o with
  | commit => exact absurd rfl h
  | _ => rfl

theorem newEvents_same {p : Nat} (h : w'.inner = w.inner) : newEvents p w w' = [] := by
  unfold newEvents
  rw [h, List.drop_length]

/-- The events a change of the cache of a process records. -/
theorem newEvents_setInner (w : World) (p : Nat) (s : LedgerState) {events : List AuditEvent}
    (h : s.auditEvents = (w.inner p).auditEvents ++ events) :
    newEvents p w (w.setInner p s) = events := by
  have hinner : (w.setInner p s).inner p = s := Function.update_self ..
  unfold newEvents
  rw [hinner, h, List.drop_left]

end Statements

/-! ## 3. How far a call has come -/

/-- Nothing is committed; the commit is applied; the cache is updated; the event is recorded; it is
    handed to the sink; or the call was cut off after its commit was applied, with the event it had
    recorded. -/
inductive Progress where
  | pending
  | booked
  | cached
  | recorded (e : AuditEvent)
  | handed (e : AuditEvent)
  | lost (e : Option AuditEvent)

/-- The events the call has recorded. -/
def Progress.events : Progress → List AuditEvent
  | .recorded e => [e]
  | .handed e => [e]
  | .lost e => e.toList
  | _ => []

/-- The events the call has handed to its sink. -/
def Progress.sent : Progress → List AuditEvent
  | .handed e => [e]
  | _ => []

/-- The call when its process stops. -/
def Progress.stop : Progress → Progress
  | .booked => .lost none
  | .cached => .lost none
  | .recorded e => .lost (some e)
  | x => x

/-- What is left of the call fits how far it has come. -/
def Fits (call : PoolCall) : Phase → Progress → Prop
  | .waiting, x => x = .pending
  | .stopped, x => x = .pending ∨ ∃ e, x = .lost e
  | .running p, .pending => Until Stmt.Quiet (AtCommit call.sink call.req.postingId) p
  | .running p, .booked => AtCache call.sink call.req.postingId p
  | .running p, .cached => AtRecord call.sink call.req.postingId p
  | .running p, .recorded e => AtHandOver call.sink e p
  | .running p, .handed _ => call.sink = true ∧ ∃ a, p = .ret a
  | .running p, .lost _ => ∃ a, p = .ret a

/-- The events of call `i` in a list of events with their calls. -/
def eventsOf (i : Nat) (l : List (Nat × AuditEvent)) : List AuditEvent :=
  (l.filter fun x => x.1 == i).map (·.2)

theorem eventsOf_append (i : Nat) (l l' : List (Nat × AuditEvent)) :
    eventsOf i (l ++ l') = eventsOf i l ++ eventsOf i l' := by
  unfold eventsOf
  rw [List.filter_append, List.map_append]

theorem eventsOf_own (i : Nat) (events : List AuditEvent) :
    eventsOf i (events.map fun e => (i, e)) = events := by
  unfold eventsOf
  rw [List.filter_eq_self.mpr, List.map_map]
  · exact List.map_id _
  · intro x hx
    obtain ⟨e, _, rfl⟩ := List.mem_map.mp hx
    exact beq_self_eq_true i

theorem eventsOf_other {i j : Nat} (h : j ≠ i) (events : List AuditEvent) :
    eventsOf j (events.map fun e => (i, e)) = [] := by
  unfold eventsOf
  rw [List.filter_eq_nil_iff.mpr, List.map_nil]
  intro x hx heq
  obtain ⟨e, _, rfl⟩ := List.mem_map.mp hx
  exact h (beq_iff_eq.mp heq).symm

/-- **The history of the cluster is that of its calls**: `R` and `H` are the recorded and the
    handed events with their calls, and `prog` says how far each call has come. -/
structure Tracks (calls : Nat → PoolCall) (c : Cluster) (R H : List (Nat × AuditEvent))
    (prog : Nat → Progress) : Prop where
  recorded : R.map (·.2) = c.recorded
  emitted : H.map (·.2) = c.world.emitted
  events : ∀ i, eventsOf i R = (prog i).events
  sent : ∀ i, eventsOf i H = (prog i).sent
  log : ∀ i, i ∈ c.world.log.map (·.session) ↔ prog i ≠ .pending
  lost : ∀ i, i ∈ c.lost ↔ ∃ e, prog i = .lost e
  about : ∀ i, ∀ e ∈ (prog i).events, e.postingId = (calls i).req.postingId
  fits : ∀ i, Fits (calls i) (c.phase i) (prog i)

section Steps

variable {digest : ByteArray → String} {salt : String} {calls : Nat → PoolCall}
  {replica : Nat → Nat} {c c' : Cluster} {R H : List (Nat × AuditEvent)} {prog : Nat → Progress}

/-- The calls whose commit is applied, where none is applied. -/
theorem Tracks.log_same (h : Tracks calls c R H prog) {i : Nat} {x : Progress} {w : World}
    (hl : w.log = c.world.log) (hx : x ≠ .pending ↔ prog i ≠ .pending) (j : Nat) :
    j ∈ w.log.map (·.session) ↔
      if j = i then x ≠ .pending else j ∈ c.world.log.map (·.session) := by
  rw [hl]
  split
  · rename_i hj
    subst hj
    rw [h.log, hx]
  · exact Iff.rfl

/-- The calls that are cut off, where none is cut off. -/
theorem Tracks.lost_same (h : Tracks calls c R H prog) {i : Nat} {x : Progress} {lost : List Nat}
    (hl : lost = c.lost) (hx : (∃ e, x = .lost e) ↔ ∃ e, prog i = .lost e) (j : Nat) :
    j ∈ lost ↔ if j = i then ∃ e, x = .lost e else j ∈ c.lost := by
  rw [hl]
  split
  · rename_i hj
    subst hj
    rw [h.lost, hx]
  · exact Iff.rfl

/-- **Call `i` has come to `x`**, has recorded `es` and handed over `hs`; the other calls are where
    they were. -/
theorem Tracks.advance (h : Tracks calls c R H prog) {i : Nat} (x : Progress)
    (es hs : List AuditEvent) (hrec : c'.recorded = c.recorded ++ es)
    (hemit : c'.world.emitted = c.world.emitted ++ hs)
    (hevents : x.events = (prog i).events ++ es) (hsent : x.sent = (prog i).sent ++ hs)
    (hlog : ∀ j, j ∈ c'.world.log.map (·.session) ↔
      if j = i then x ≠ .pending else j ∈ c.world.log.map (·.session))
    (hlost : ∀ j, j ∈ c'.lost ↔ if j = i then ∃ e, x = .lost e else j ∈ c.lost)
    (habout : ∀ e ∈ es, e.postingId = (calls i).req.postingId)
    (hphase : ∀ j, j ≠ i → c'.phase j = c.phase j) (hfits : Fits (calls i) (c'.phase i) x) :
    Tracks calls c' (R ++ es.map fun e => (i, e)) (H ++ hs.map fun e => (i, e))
      (Function.update prog i x) := by
  refine ⟨?_, ?_, fun j => ?_, fun j => ?_, fun j => ?_, fun j => ?_, fun j => ?_, fun j => ?_⟩
  · rw [List.map_append, h.recorded, hrec, List.map_map]
    simp
  · rw [List.map_append, h.emitted, hemit, List.map_map]
    simp
  all_goals by_cases hj : j = i
  · subst hj
    rw [Function.update_self, eventsOf_append, eventsOf_own, h.events, hevents]
  · rw [Function.update_of_ne hj, eventsOf_append, eventsOf_other hj, h.events, List.append_nil]
  · subst hj
    rw [Function.update_self, eventsOf_append, eventsOf_own, h.sent, hsent]
  · rw [Function.update_of_ne hj, eventsOf_append, eventsOf_other hj, h.sent, List.append_nil]
  · subst hj
    rw [Function.update_self, hlog, if_pos rfl]
  · rw [Function.update_of_ne hj, hlog, if_neg hj, h.log]
  · subst hj
    rw [Function.update_self, hlost, if_pos rfl]
  · rw [Function.update_of_ne hj, hlost, if_neg hj, h.lost]
  · subst hj
    rw [Function.update_self, hevents]
    intro e he
    rcases List.mem_append.mp he with he | he
    · exact h.about j e he
    · exact habout e he
  · rw [Function.update_of_ne hj]
    exact h.about j
  · subst hj
    rw [Function.update_self]
    exact hfits
  · rw [Function.update_of_ne hj, hphase j hj]
    exact h.fits j

/-- Some history of the calls is that of the cluster. -/
def Tracked (calls : Nat → PoolCall) (c : Cluster) : Prop := ∃ R H prog, Tracks calls c R H prog

theorem tracked_start (calls : Nat → PoolCall) (base : Tables) (inner : Nat → LedgerState) :
    Tracked calls (Cluster.start base inner) := by
  refine ⟨[], [], fun _ => .pending, rfl, rfl, fun _ => rfl, fun _ => rfl, fun i => ?_, fun i => ?_,
    fun i e he => ?_, fun i => rfl⟩
  · exact ⟨fun hi => absurd hi List.not_mem_nil, fun hne => absurd rfl hne⟩
  · refine ⟨fun hi => absurd hi List.not_mem_nil, fun ⟨e, he⟩ => ?_⟩
    cases he
  · exact absurd he List.not_mem_nil

theorem tracked_begin (h : Tracked calls c) {i : Nat} (waits : c.phase i = .waiting) :
    Tracked calls (c.begin digest salt calls i) := by
  obtain ⟨R, H, prog, h⟩ := h
  have hpending : prog i = .pending := by
    have hfits := h.fits i
    rw [waits] at hfits
    exact hfits
  refine ⟨_, _, _, h.advance (i := i) .pending [] [] ?_ ?_ ?_ ?_ (h.log_same rfl ?_)
    (h.lost_same rfl ?_) ?_ (fun j hj => Function.update_of_ne hj ..) ?_⟩
  · exact (List.append_nil _).symm
  · exact (List.append_nil _).symm
  · rw [hpending]; rfl
  · rw [hpending]; rfl
  · rw [hpending]
  · rw [hpending]
  · exact fun e he => absurd he List.not_mem_nil
  · rw [show (c.begin digest salt calls i).phase i = _ from Function.update_self ..]
    exact postPool_shape digest salt _ _ _

/-! ### The statements of a call -/

variable {i : Nat} {w : World} {rest : PostScript}

/-- Call `i` has issued a statement and has come to `x`. -/
theorem Tracks.issued (h : Tracks calls c R H prog) {o : Stmt} {r : Reply o} (x : Progress)
    (es hs : List AuditEvent) (hnew : newEvents (replica i) c.world w = es)
    (hemit : w.emitted = c.world.emitted ++ hs) (hevents : x.events = (prog i).events ++ es)
    (hsent : x.sent = (prog i).sent ++ hs)
    (hlog : ∀ j, j ∈ w.log.map (·.session) ↔
      if j = i then x ≠ .pending else j ∈ c.world.log.map (·.session))
    (hlost : ∀ j, j ∈ (c.issued replica i o r w rest).lost ↔
      if j = i then ∃ e, x = .lost e else j ∈ c.lost)
    (habout : ∀ e ∈ es, e.postingId = (calls i).req.postingId)
    (hfits : Fits (calls i) (.running rest) x) :
    Tracked calls (c.issued replica i o r w rest) := by
  refine ⟨_, _, _, h.advance x es hs ?_ hemit hevents hsent hlog hlost habout
    (fun j hj => Function.update_of_ne hj ..) ?_⟩
  · rw [← hnew]
    rfl
  · rw [show (c.issued replica i o r w rest).phase i = _ from Function.update_self ..]
    exact hfits

/-- ... and has neither recorded nor handed over anything by it. -/
theorem Tracks.moved (h : Tracks calls c R H prog) {o : Stmt} {r : Reply o} (x : Progress)
    (hnew : newEvents (replica i) c.world w = []) (hemit : w.emitted = c.world.emitted)
    (hevents : x.events = (prog i).events) (hsent : x.sent = (prog i).sent)
    (hlog : ∀ j, j ∈ w.log.map (·.session) ↔
      if j = i then x ≠ .pending else j ∈ c.world.log.map (·.session))
    (hlost : ∀ j, j ∈ (c.issued replica i o r w rest).lost ↔
      if j = i then ∃ e, x = .lost e else j ∈ c.lost)
    (hfits : Fits (calls i) (.running rest) x) :
    Tracked calls (c.issued replica i o r w rest) := by
  refine h.issued x [] [] hnew ?_ ?_ ?_ hlog hlost (fun e he => absurd he List.not_mem_nil) hfits
  · rw [hemit, List.append_nil]
  · rw [hevents, List.append_nil]
  · rw [hsent, List.append_nil]

/-- A statement other than a commit cuts no call off. -/
theorem issued_lost {o : Stmt} {r : Reply o} (ho : o ≠ .commit) :
    (c.issued replica i o r w rest).lost = c.lost := by
  have hnone : unacknowledged o r c.world w = false := unacknowledged_quiet ho
  unfold Cluster.issued
  simp only [hnone, Bool.false_eq_true, if_false, List.append_nil]

theorem tracked_quiet (h : Tracks calls c R H prog) (hprog : prog i = .pending) {o : Stmt}
    {r : Reply o} (he : Exec replica i o c.world r w) (hq : o.Quiet)
    (hrest : Until Stmt.Quiet (AtCommit (calls i).sink (calls i).req.postingId) rest) :
    Tracked calls (c.issued replica i o r w rest) := by
  obtain ⟨hl, hinner, hemitted⟩ := exec_quiet he hq
  have ho : o ≠ .commit := by
    rintro rfl
    exact hq
  refine h.moved .pending (newEvents_same hinner) hemitted ?_ ?_ (h.log_same hl ?_)
    (h.lost_same (issued_lost ho) ?_) hrest
  all_goals rw [hprog]

/-- A commit that was not applied. -/
theorem tracked_rejected (h : Tracks calls c R H prog) (hprog : prog i = .pending) {e : String}
    (hrest : ∃ a, rest = .ret a) :
    Tracked calls (c.issued replica i .commit (.error e) (c.world.discard i) rest) := by
  have hnone : (c.issued replica i .commit (.error e) (c.world.discard i) rest).lost = c.lost := by
    have hlog : unacknowledged .commit (.error e) c.world (c.world.discard i) = false := by
      simp [unacknowledged, World.discard]
    unfold Cluster.issued
    simp only [hlog, Bool.false_eq_true, if_false, List.append_nil]
  obtain ⟨a, rfl⟩ := hrest
  refine h.moved .pending (newEvents_same rfl) rfl ?_ ?_
    (h.log_same (w := c.world.discard i) rfl ?_) (h.lost_same hnone ?_) (.ret a)
  all_goals rw [hprog]

/-- The calls whose commit is applied, after that of call `i`. -/
theorem log_commit {t : Tables} (j : Nat) :
    j ∈ (c.world.applyCommit i t).log.map (·.session) ↔
      if j = i then True else j ∈ c.world.log.map (·.session) := by
  rw [show (c.world.applyCommit i t).log = c.world.log ++ [⟨i, c.world.lastHashRead i, t⟩] from rfl,
    List.map_append, List.mem_append]
  split
  · rename_i hj
    subst hj
    simp
  · rename_i hj
    simp [hj]

/-- A commit that was applied and is reported as such. -/
theorem tracked_committed (h : Tracks calls c R H prog) (hprog : prog i = .pending) {t : Tables}
    (hrest : AtCache (calls i).sink (calls i).req.postingId rest) :
    Tracked calls (c.issued replica i .commit (.ok ()) (c.world.applyCommit i t) rest) := by
  have hnone : (c.issued replica i .commit (.ok ()) (c.world.applyCommit i t) rest).lost =
      c.lost := by
    unfold Cluster.issued
    simp only [unacknowledged, Bool.false_eq_true, if_false, List.append_nil]
  refine h.moved .booked (newEvents_same rfl) rfl ?_ ?_ (fun j => ?_) (h.lost_same hnone ?_) hrest
  · rw [hprog]; rfl
  · rw [hprog]; rfl
  · rw [log_commit]
    simp
  · rw [hprog]
    simp

/-- A commit that was applied and is reported as failed cuts the call off. -/
theorem tracked_unacknowledged (h : Tracks calls c R H prog) (hprog : prog i = .pending)
    {e : String} {t : Tables} (hrest : ∃ a, rest = .ret a) :
    Tracked calls (c.issued replica i .commit (.error e) (c.world.applyCommit i t) rest) := by
  have hlost : (c.issued replica i .commit (.error e) (c.world.applyCommit i t) rest).lost =
      c.lost ++ [i] := by
    have hlog : unacknowledged .commit (.error e) c.world (c.world.applyCommit i t) = true := by
      simp [unacknowledged, World.applyCommit]
    unfold Cluster.issued
    simp only [hlog, if_true]
  refine h.moved (.lost none) (newEvents_same rfl) rfl ?_ ?_ (fun j => ?_) (fun j => ?_) hrest
  · rw [hprog]; rfl
  · rw [hprog]; rfl
  · rw [log_commit]
    simp
  · rw [hlost, List.mem_append, List.mem_singleton]
    by_cases hj : j = i
    · simp [hj]
    · simp [hj]

theorem tracked_cached (h : Tracks calls c R H prog) (hprog : prog i = .booked)
    {f : LedgerState → LedgerState} (hf : ∀ state, (f state).auditEvents = state.auditEvents)
    (hrest : AtRecord (calls i).sink (calls i).req.postingId rest) :
    Tracked calls (c.issued replica i (.cache f) ()
      (c.world.setInner (replica i) (f (c.world.inner (replica i)))) rest) := by
  refine h.moved .cached (newEvents_setInner _ _ _ ?_) rfl ?_ ?_
    (h.log_same (w := c.world.setInner _ _) rfl ?_) (h.lost_same (issued_lost (by simp)) ?_) hrest
  · rw [hf, List.append_nil]
  · rw [hprog]; rfl
  · rw [hprog]; rfl
  · rw [hprog]
    simp
  · rw [hprog]
    simp

theorem tracked_recorded (h : Tracks calls c R H prog) (hprog : prog i = .cached) {e : AuditEvent}
    (he : e.postingId = (calls i).req.postingId) (hrest : AtHandOver (calls i).sink e rest) :
    Tracked calls (c.issued replica i (.cache fun state => state.pushAudit e) ()
      (c.world.setInner (replica i) ((c.world.inner (replica i)).pushAudit e)) rest) := by
  refine h.issued (.recorded e) [e] [] (newEvents_setInner _ _ _ rfl) (List.append_nil _).symm ?_ ?_
    (h.log_same (w := c.world.setInner _ _) rfl ?_) (h.lost_same (issued_lost (by simp)) ?_)
    (fun e' he' => ?_) hrest
  · rw [hprog]; rfl
  · rw [hprog]; rfl
  · rw [hprog]
    simp
  · rw [hprog]
    simp
  · rw [List.mem_singleton.mp he']
    exact he

theorem tracked_handed (h : Tracks calls c R H prog) {e : AuditEvent} (hprog : prog i = .recorded e)
    (hsink : (calls i).sink = true) (hrest : ∃ a, rest = .ret a) :
    Tracked calls (c.issued replica i (.emit e) ()
      { c.world with emitted := c.world.emitted ++ [e] } rest) := by
  refine h.issued (.handed e) [] [e] (newEvents_same rfl) rfl ?_ ?_
    (h.log_same (w := { c.world with emitted := c.world.emitted ++ [e] }) rfl ?_)
    (h.lost_same (issued_lost (by simp)) ?_) ?_ ⟨hsink, hrest⟩
  · rw [hprog]; rfl
  · rw [hprog]; rfl
  · rw [hprog]
    simp
  · rw [hprog]
    simp
  · exact fun e he => absurd he List.not_mem_nil

/-- **Every statement of a call is tracked**: by how far the call has come. -/
theorem tracked_issue (h : Tracked calls c) {o : Stmt} {k : Reply o → PostScript} {r : Reply o}
    (next : c.phase i = .running (.call o k)) (he : Exec replica i o c.world r w) :
    Tracked calls (c.issued replica i o r w (k r)) := by
  obtain ⟨R, H, prog, h⟩ := h
  have hfits := h.fits i
  rw [next] at hfits
  cases hprog : prog i with
  | pending =>
    rw [hprog] at hfits
    rcases Until.next hfits with ⟨hq, hrest⟩ | ⟨k', hcall, herror, hok⟩
    · exact tracked_quiet h hprog he hq (hrest r)
    · cases hcall
      rcases he with ⟨e, rfl, rfl⟩ | ⟨t, _, rfl⟩
      · exact tracked_rejected h hprog (herror e)
      · cases r with
        | ok u => exact tracked_committed h hprog hok
        | error e => exact tracked_unacknowledged h hprog (herror e)
  | booked =>
    rw [hprog] at hfits
    obtain ⟨f, k', hcall, hf, hrest⟩ := hfits
    cases hcall
    obtain rfl := he
    exact tracked_cached h hprog hf (hrest r)
  | cached =>
    rw [hprog] at hfits
    obtain ⟨e, k', hcall, hid, hrest⟩ := hfits
    cases hcall
    obtain rfl := he
    exact tracked_recorded h hprog hid (hrest r)
  | recorded e =>
    rw [hprog] at hfits
    have hover : AtHandOver (calls i).sink e (.call o k) := hfits
    unfold AtHandOver at hover
    split at hover
    · rename_i hsink
      obtain ⟨k', hcall, hrest⟩ := hover
      cases hcall
      obtain rfl := he
      exact tracked_handed h hprog hsink (hrest r)
    · obtain ⟨a, ha⟩ := hover
      cases ha
  | handed e =>
    rw [hprog] at hfits
    obtain ⟨_, a, ha⟩ := hfits
    cases ha
  | lost e =>
    rw [hprog] at hfits
    obtain ⟨a, ha⟩ := hfits
    cases ha

/-! ### The processes -/

/-- How far a call in progress can have come. -/
theorem fits_inProgress {call : PoolCall} {phase : Phase} {x : Progress} (h : Fits call phase x)
    (hin : phase.inProgress = true) : (∀ e, x ≠ .handed e) ∧ ∀ e, x ≠ .lost e := by
  cases phase with
  | waiting => cases hin
  | stopped => cases hin
  | running p =>
    refine ⟨fun e hx => ?_, fun e hx => ?_⟩
    · subst hx
      obtain ⟨_, a, rfl⟩ := h
      cases hin
    · subst hx
      obtain ⟨a, rfl⟩ := h
      cases hin

theorem stop_events (x : Progress) : x.stop.events = x.events := by
  cases x with
  | recorded e => rfl
  | _ => rfl

theorem stop_sent (x : Progress) : x.stop.sent = x.sent := by
  cases x with
  | handed e => rfl
  | _ => rfl

theorem stop_ne_pending (x : Progress) : x.stop ≠ .pending ↔ x ≠ .pending := by
  cases x with
  | pending => exact Iff.rfl
  | _ => simp [Progress.stop]

/-- A call that is stopped is cut off if its commit was applied. -/
theorem stop_lost {x : Progress} (hhanded : ∀ e, x ≠ .handed e) :
    (∃ e, x.stop = .lost e) ↔ x ≠ .pending := by
  cases x with
  | pending => simp [Progress.stop]
  | handed e => exact absurd rfl (hhanded e)
  | _ => simp [Progress.stop]

theorem stop_fits {call : PoolCall} {x : Progress} (hhanded : ∀ e, x ≠ .handed e) :
    Fits call .stopped x.stop := by
  by_cases hx : x = .pending
  · rw [hx]
    exact Or.inl rfl
  · exact Or.inr ((stop_lost hhanded).mpr hx)

theorem tracked_stop (h : Tracked calls c) (p : Nat) : Tracked calls (c.stop replica p) := by
  obtain ⟨R, H, prog, h⟩ := h
  obtain ⟨_, hl, _, hemitted, _, _⟩ := rolled_stopProcess replica c.world p
  have hstopped : ∀ i, (c.phase i).inProgress = true →
      (∀ e, prog i ≠ .handed e) ∧ ∀ e, prog i ≠ .lost e := fun i => fits_inProgress (h.fits i)
  refine ⟨R, H, fun i => if replica i = p ∧ (c.phase i).inProgress = true then (prog i).stop
    else prog i, h.recorded, h.emitted.trans hemitted.symm, fun i => ?_, fun i => ?_, fun i => ?_,
    fun i => ?_, fun i => ?_, fun i => ?_⟩
  · rw [h.events]
    split
    · rw [stop_events]
    · rfl
  · rw [h.sent]
    split
    · rw [stop_sent]
    · rfl
  · rw [show (c.stop replica p).world.log = c.world.log from hl, h.log]
    split
    · rw [stop_ne_pending]
    · exact Iff.rfl
  · rw [show (c.stop replica p).lost = c.lost ++ _ from rfl, List.mem_append, List.mem_filter,
      h.lost, h.log]
    simp only [Bool.and_eq_true, decide_eq_true_eq]
    split
    · rename_i hi
      obtain ⟨hhanded, hlost⟩ := hstopped i hi.2
      rw [stop_lost hhanded]
      constructor
      · intro hin
        rcases hin with ⟨e, he⟩ | ⟨hne, _⟩
        · exact absurd he (hlost e)
        · exact hne
      · exact fun hne => Or.inr ⟨hne, hi⟩
    · rename_i hi
      exact ⟨fun hin => hin.resolve_right fun hin => hi hin.2, Or.inl⟩
  · have hevents : ∀ x, (if replica i = p ∧ (c.phase i).inProgress = true then Progress.stop x
        else x).events = x.events := by
      intro x
      split
      · exact stop_events x
      · rfl
    rw [hevents]
    exact h.about i
  · have hphase : (c.stop replica p).phase i =
        if replica i = p then (c.phase i).stop else c.phase i := rfl
    rw [hphase]
    by_cases hi : replica i = p
    · rw [if_pos hi]
      rcases stop_cases (c.phase i) with ⟨hsame, hended⟩ | ⟨hstop, hin⟩
      · rw [hsame, if_neg fun hn => by rw [hended] at hn; cases hn.2]
        exact h.fits i
      · rw [hstop, if_pos ⟨hi, hin⟩]
        exact stop_fits (hstopped i hin).1
    · rw [if_neg hi, if_neg fun hn => hi hn.1]
      exact h.fits i

theorem tracked_restart (h : Tracked calls c) (p : Nat) (s : LedgerState) :
    Tracked calls (c.restart p s) := by
  obtain ⟨R, H, prog, h⟩ := h
  exact ⟨R, H, prog, h.recorded, h.emitted, h.events, h.sent, h.log, h.lost, h.about, h.fits⟩

/-- **The history of the cluster is that of its calls, in every run.** -/
theorem cluster_tracked {base : Tables} {inner : Nat → LedgerState}
    (h : ClusterReach digest salt calls replica base inner c) : Tracked calls c := by
  induction h with
  | refl => exact tracked_start calls base inner
  | tail _ hstep ih =>
    cases hstep with
    | begin i waits up => exact tracked_begin ih waits
    | issue i o k r w next exec => exact tracked_issue ih next exec
    | stop p up => exact tracked_stop ih p
    | restart p reads s down hydrated => exact tracked_restart ih p s

end Steps

/-! ## 4. The guarantee -/

/-- Exactly one event was recorded for the posting, and exactly this one was handed to a sink. -/
def Cluster.Audited (c : Cluster) (id : String) : Prop :=
  ∃ e, (c.recorded.filter fun e => e.postingId == id) = [e] ∧
    (c.world.emitted.filter fun e => e.postingId == id) = [e]

section Guarantee

variable {digest : ByteArray → String} {salt : String} {calls : Nat → PoolCall}
  {replica : Nat → Nat} {base : Tables} {c : Cluster} {R H : List (Nat × AuditEvent)}
  {prog : Nat → Progress}

/-- A posting is committed by one call. -/
theorem session_unique (hs : c.Sound digest salt calls replica base) {k l : Commit}
    (hk : k ∈ c.world.log) (hl : l ∈ c.world.log)
    (h : (calls k.session).req.postingId = (calls l.session).req.postingId) :
    k.session = l.session := by
  obtain ⟨_, _, _, hbk⟩ := hs.poolInv.booked hk
  obtain ⟨_, _, _, hbl⟩ := hs.poolInv.booked hl
  rw [hs.poolInv.unique hk hl ((hbk.hasPosting _).mpr rfl) ((hbl.hasPosting _).mpr h)]

/-- **The events about a committed posting are those of its call.** -/
theorem filter_posting (hs : c.Sound digest salt calls replica base)
    (h : Tracks calls c R H prog) {l : List (Nat × AuditEvent)}
    (hl : ∀ i, ∀ e ∈ eventsOf i l, e ∈ (prog i).events) {k : Commit} (hk : k ∈ c.world.log) :
    ((l.map (·.2)).filter fun e => e.postingId == (calls k.session).req.postingId) =
      eventsOf k.session l := by
  unfold eventsOf
  rw [List.filter_map]
  congr 1
  refine List.filter_congr fun x hx => ?_
  have hown : x.2 ∈ (prog x.1).events := by
    refine hl x.1 x.2 (List.mem_map_of_mem (List.mem_filter.mpr ⟨hx, ?_⟩))
    exact beq_self_eq_true x.1
  have hid : x.2.postingId = (calls x.1).req.postingId := h.about x.1 x.2 hown
  have hcommitted : x.1 ∈ c.world.log.map (·.session) := by
    rw [h.log]
    intro hpending
    rw [hpending] at hown
    exact absurd hown List.not_mem_nil
  obtain ⟨k', hk', hsession⟩ := List.mem_map.mp hcommitted
  rw [Bool.eq_iff_iff, Function.comp_apply, beq_iff_eq, beq_iff_eq, hid]
  constructor
  · intro heq
    rw [← hsession] at heq ⊢
    exact session_unique hs hk' hk heq
  · exact fun heq => by rw [heq]

theorem recorded_about (hs : c.Sound digest salt calls replica base)
    (h : Tracks calls c R H prog) {k : Commit} (hk : k ∈ c.world.log) :
    (c.recorded.filter fun e => e.postingId == (calls k.session).req.postingId) =
      (prog k.session).events := by
  rw [← h.recorded, filter_posting hs h (fun i e he => by rwa [h.events] at he) hk, h.events]

theorem emitted_about (hs : c.Sound digest salt calls replica base)
    (h : Tracks calls c R H prog) {k : Commit} (hk : k ∈ c.world.log) :
    (c.world.emitted.filter fun e => e.postingId == (calls k.session).req.postingId) =
      (prog k.session).sent := by
  have hsent : ∀ i, ∀ e ∈ eventsOf i H, e ∈ (prog i).events := by
    intro i e he
    rw [h.sent] at he
    cases hprog : prog i with
    | handed e' =>
      rw [hprog] at he
      exact he
    | _ =>
      rw [hprog] at he
      exact absurd he List.not_mem_nil
  rw [← h.emitted, filter_posting hs h hsent hk, h.sent]

/-- Where no post is in progress, a committed call has handed its event over, was cut off, or has
    no sink. -/
theorem idle_progress (h : Tracks calls c R H prog) (hidle : c.Idle) {i : Nat}
    (hi : prog i ≠ .pending) : (∃ e, prog i = .handed e) ∨ (∃ e, prog i = .lost e) ∨
      ∃ e, prog i = .recorded e ∧ (calls i).sink = false := by
  have hfits := h.fits i
  have hended := hidle i
  cases hphase : c.phase i with
  | waiting =>
    rw [hphase] at hfits
    exact absurd hfits hi
  | stopped =>
    rw [hphase] at hfits
    exact Or.inr (Or.inl (hfits.resolve_left hi))
  | running p =>
    rw [hphase] at hfits hended
    cases hprog : prog i with
    | pending => exact absurd hprog hi
    | booked =>
      rw [hprog] at hfits
      obtain ⟨f, k, rfl, _⟩ := hfits
      cases hended
    | cached =>
      rw [hprog] at hfits
      obtain ⟨e, k, rfl, _⟩ := hfits
      cases hended
    | recorded e =>
      rw [hprog] at hfits
      have hover : AtHandOver (calls i).sink e p := hfits
      unfold AtHandOver at hover
      split at hover
      · obtain ⟨k, rfl, _⟩ := hover
        cases hended
      · rename_i hsink
        exact Or.inr (Or.inr ⟨e, rfl, by simpa using hsink⟩)
    | handed e => exact Or.inl ⟨e, rfl⟩
    | lost e => exact Or.inr (Or.inl ⟨e, rfl⟩)

/-- A call that has handed its event over has a sink. -/
theorem handed_sink (h : Tracks calls c R H prog) {i : Nat} {e : AuditEvent}
    (hi : prog i = .handed e) : (calls i).sink = true := by
  have hfits := h.fits i
  rw [hi] at hfits
  cases hphase : c.phase i with
  | waiting =>
    rw [hphase] at hfits
    cases hfits
  | stopped =>
    rw [hphase] at hfits
    rcases hfits with heq | ⟨e', heq⟩
    · cases heq
    · cases heq
  | running p =>
    rw [hphase] at hfits
    exact hfits.1

/-- A posting that was not there before is that of a committed call. -/
theorem posting_committed (hs : c.Sound digest salt calls replica base) {id : String}
    (hid : c.world.db.HasPosting id) (hnew : ¬ base.HasPosting id) :
    ∃ k ∈ c.world.log, (calls k.session).req.postingId = id := by
  rcases (tablesAfter_hasPosting _ _ _).mp hid with hin | ⟨k, hk, hkid⟩
  · rw [hs.base] at hin
    exact absurd hin hnew
  · obtain ⟨_, _, _, hb⟩ := hs.poolInv.booked hk
    exact ⟨k, hk, ((hb.hasPosting id).mp hkid).symm⟩

/-- The posting of a committed call is in the tables, and was not there before. -/
theorem committed_posting (hs : c.Sound digest salt calls replica base) {k : Commit}
    (hk : k ∈ c.world.log) : c.world.db.HasPosting (calls k.session).req.postingId ∧
      ¬ base.HasPosting (calls k.session).req.postingId := by
  obtain ⟨_, _, _, hb⟩ := hs.poolInv.booked hk
  have hid := (hb.hasPosting _).mpr rfl
  refine ⟨(tablesAfter_hasPosting _ _ _).mpr (Or.inr ⟨k, hk, hid⟩), ?_⟩
  rw [← hs.base]
  exact hs.addsNew k hk _ hid

end Guarantee

/-- **Every committed posting has exactly one audit event, if and only if no call was cut off after
    its commit**: in every run of calls and retries on processes that stop and are started again,
    where no post is in progress, whether or not the calls that were cut off have been retried. The
    replicas of the committed calls need a sink to hand the events to. -/
theorem postings_audited_iff (digest : ByteArray → String) (salt : String) (calls : Nat → PoolCall)
    (replica : Nat → Nat) (base : Tables) (inner : Nat → LedgerState) (c : Cluster)
    (h : ClusterReach digest salt calls replica base inner c) (hidle : c.Idle) :
    (∀ id, c.world.db.HasPosting id → ¬ base.HasPosting id → c.Audited id) ↔
      c.lost = [] ∧ ∀ k ∈ c.world.log, (calls k.session).sink = true := by
  have hs := cluster_sound h
  obtain ⟨R, H, prog, ht⟩ := cluster_tracked h
  constructor
  · intro haudited
    have hhanded : ∀ k ∈ c.world.log, ∃ e, prog k.session = .handed e := by
      intro k hk
      obtain ⟨hin, hnew⟩ := committed_posting hs hk
      obtain ⟨e, _, hemitted⟩ := haudited _ hin hnew
      rw [emitted_about hs ht hk] at hemitted
      cases hprog : prog k.session with
      | handed e => exact ⟨e, rfl⟩
      | _ =>
        rw [hprog] at hemitted
        cases hemitted
    refine ⟨List.eq_nil_iff_forall_not_mem.mpr fun i hi => ?_, fun k hk => ?_⟩
    · obtain ⟨e, he⟩ := (ht.lost i).mp hi
      have hlog : i ∈ c.world.log.map (·.session) := (ht.log i).mpr (by rw [he]; simp)
      obtain ⟨k, hk, rfl⟩ := List.mem_map.mp hlog
      obtain ⟨e', he'⟩ := hhanded k hk
      rw [he] at he'
      cases he'
    · obtain ⟨e, he⟩ := hhanded k hk
      exact handed_sink ht he
  · intro hclean id hin hnew
    obtain ⟨hlost, hsinks⟩ := hclean
    obtain ⟨k, hk, rfl⟩ := posting_committed hs hin hnew
    have hcommitted : prog k.session ≠ .pending :=
      (ht.log _).mp (List.mem_map_of_mem hk)
    rcases idle_progress ht hidle hcommitted with ⟨e, he⟩ | hcut | ⟨e, _, hnosink⟩
    · refine ⟨e, ?_, ?_⟩
      · rw [recorded_about hs ht hk, he]
        rfl
      · rw [emitted_about hs ht hk, he]
        rfl
    · have hin := (ht.lost k.session).mpr hcut
      rw [hlost] at hin
      exact absurd hin List.not_mem_nil
    · rw [hsinks k hk] at hnosink
      cases hnosink

/-! ## 5. A commit that is applied and reported as failed -/

/-- The two calls of Idempotency.lean, on replicas with a sink. -/
def sampleHeard (i : Nat) : PoolCall := { sampleTwice i with sink := true }

def sampleQuiet : Cluster := Cluster.start sampleTables fun _ => .new

/-- One call, with nothing failing. -/
def sampleServed : Cluster :=
  (sampleQuiet.servePost sampleDigest sampleSalt sampleHeard id (exec id 0) 0).get
    (by decide +kernel)

/-- Its commit is reported as failed. -/
def sampleCutOff : Cluster :=
  (sampleQuiet.servePost sampleDigest sampleSalt sampleHeard id (execUnacked 0) 0).get
    (by decide +kernel)

/-- ... and the retry on another replica, with nothing failing. -/
def sampleRetried : Cluster :=
  (sampleCutOff.servePost sampleDigest sampleSalt sampleHeard id (exec id 1) 1).get
    (by decide +kernel)

theorem sampleServed_run : ClusterReach sampleDigest sampleSalt sampleHeard id sampleTables
    (fun _ => .new) sampleServed ∧ sampleServed.Idle := by
  obtain ⟨hrun, hphase⟩ := servePost_spec (exec_sound id 0) (c := sampleQuiet) rfl rfl _
  exact ⟨hrun, Cluster.Idle.answered (fun _ => rfl) hphase⟩

theorem postings_audited_iff_sample : sampleServed.Audited "bal1" :=
  (postings_audited_iff sampleDigest sampleSalt sampleHeard id sampleTables (fun _ => .new)
    sampleServed sampleServed_run.1 sampleServed_run.2).mpr ⟨by decide +kernel, fun _ _ => rfl⟩
    "bal1" (by decide +kernel) (by decide +kernel)

/-- The calls that were cut off have been retried, and the retries have returned `Ok`. -/
def Cluster.Retried (calls : Nat → PoolCall) (c : Cluster) : Prop :=
  ∀ i ∈ c.lost, ∃ j a, (calls j).req = (calls i).req ∧ (c.phase j).answer = some (.ok a)

/-- **A posting whose commit is applied and reported as failed gets no event**, although its retry
    returns `Ok`. -/
theorem retried_posting_unaudited : ∃ c, ClusterReach sampleDigest sampleSalt sampleHeard id
      sampleTables (fun _ => .new) c ∧ c.Idle ∧ c.lost = [0] ∧ c.Retried sampleHeard ∧
    (∀ i, (sampleHeard i).sink = true) ∧ c.world.db.HasPosting "bal1" ∧
    ¬ sampleTables.HasPosting "bal1" ∧ c.recorded = [] ∧ c.world.emitted = [] := by
  obtain ⟨hfirst, hphase⟩ := servePost_spec
    (fun o w r w' h => (execUnacked_sound 0 o w r w' h).1) (c := sampleQuiet) rfl rfl _
  have hwaits : sampleCutOff.phase 1 = .waiting := by
    obtain ⟨a, ha⟩ := hphase
    exact congrFun ha 1
  obtain ⟨hretry, hphase'⟩ := servePost_spec (exec_sound id 1) hwaits (by decide +kernel) _
  have hidle := Cluster.Idle.answered (Cluster.Idle.answered (fun _ => rfl) hphase) hphase'
  have hanswer : (sampleRetried.phase 1).answer = some (.ok (sampleResponse, true)) := by
    decide +kernel
  refine ⟨sampleRetried, hfirst.trans hretry, hidle, by decide +kernel,
    fun i _ => ⟨1, _, rfl, hanswer⟩, fun _ => rfl, by decide +kernel, by decide +kernel,
    by decide +kernel, by decide +kernel⟩

end LedgerAccounting
