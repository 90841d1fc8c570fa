/-
  File:      LedgerAccounting/Pool/Sequential.lean
  Subject:   `post` with a pool, run alone: every way a call can end when no other call runs, with
             any of its statements failing or with none.

  * `PostOutcome`: the call is refused, abandoned, answered from the tables, committed without
    being acknowledged, or posted; `postPool_outcome`: it ends in no other way.
  * `Sequential`: calls one after another; `Sequential.interleaved`: they are an interleaving.
-/
import LedgerAccounting.Pool.Sequence
import LedgerAccounting.Lib.Alone

namespace LedgerAccounting

open Script

/-! ## 1. Failures -/

/-- The statement answered with an error. -/
def Fails : (o : Stmt) → Reply o → Prop
  | .selectPosting _, r => ∃ e, r = .error e
  | .selectEntriesOf _, r => ∃ e, r = .error e
  | .selectStatus _, r => ∃ e, r = .error e
  | .selectTypeName _, r => ∃ e, r = .error e
  | .selectLastHash, r => ∃ e, r = .error e
  | .selectMaxSequence, r => ∃ e, r = .error e
  | .selectEntries, r => ∃ e, r = .error e
  | .begin, r => ∃ e, r = .error e
  | .insertPosting _, r => ∃ e, r = .error e
  | .insertEntry _, r => ∃ e, r = .error e
  | .insertAnchor _, r => ∃ e, r = .error e
  | .commit, r => ∃ e, r = .error e
  | .rollback, _ => False
  | .cache _, _ => False
  | .emit _, _ => False

/-- What a statement may do when, if `clean`, none fails. -/
def ExecIf (clean : Prop) (replica : Nat → Nat) (i : Nat) (o : Stmt) (w : World) (r : Reply o)
    (w' : World) : Prop :=
  Exec replica i o w r w' ∧ (clean → ¬ Fails o r)

theorem ok_not_error {α : Type} {a : α} :
    ¬ ∃ e : String, (Except.ok a : Except String α) = .error e := by
  intro h
  obtain ⟨_, he⟩ := h
  cases he

/-- **In the executable run no statement fails.** -/
theorem exec_clean (clean : Prop) (replica : Nat → Nat) (i : Nat) (o : Stmt) (w : World)
    (r : Reply o) (w' : World) (h : exec replica i o w = some (r, w')) :
    ExecIf clean replica i o w r w' := by
  refine ⟨exec_sound replica i o w r w' h, fun _ => ?_⟩
  cases o with
  | selectPosting id => cases h; exact ok_not_error
  | selectEntriesOf id => cases h; exact ok_not_error
  | selectStatus id => cases h; exact ok_not_error
  | selectTypeName id => cases h; exact ok_not_error
  | selectLastHash => cases h; exact ok_not_error
  | selectMaxSequence => cases h; exact ok_not_error
  | selectEntries => cases h; exact ok_not_error
  | begin => cases h; exact ok_not_error
  | insertPosting row =>
    simp only [exec] at h
    split at h
    · cases h
    · split at h
      · cases h; exact ok_not_error
      · split at h
        · cases h
        · cases h; exact ok_not_error
  | insertEntry row =>
    simp only [exec] at h
    split at h
    · cases h
    · split at h
      · cases h; exact ok_not_error
      · cases h
  | insertAnchor row =>
    simp only [exec] at h
    split at h
    · cases h
    · split at h
      · split at h
        · cases h; exact ok_not_error
        · split at h
          · cases h
          · cases h; exact ok_not_error
      · cases h
  | commit =>
    obtain ⟨t, _, hpair⟩ := Option.map_eq_some_iff.mp h
    cases hpair
    exact ok_not_error
  | rollback => exact fun hfails => hfails
  | cache f => exact fun hfails => hfails
  | emit event => exact fun hfails => hfails

/-! ## 2. The checks on the tables -/

/-- `SELECT ... FROM accounts WHERE account_id = $1`. -/
def Tables.account (t : Tables) (accountId : String) : Option AccountRow :=
  t.accounts.find? fun row => row.accountId == accountId

/-- What `checkActiveDb` answers when nothing fails. -/
def checkActiveRow (t : Tables) (p : ParsedEntry) : Except PostError Unit :=
  match (t.account p.accountId).map (·.status) with
  | some status =>
    if status ≠ "ACTIVE" then .error (.validation s!"account not active: {p.accountId}")
    else .ok ()
  | none => .error (.validation s!"account not found: {p.accountId}")

/-- What `checkDirectionDb` answers when nothing fails. -/
def checkDirectionRow (t : Tables) (p : ParsedEntry) : Except PostError Unit :=
  match (t.account p.accountId).map (·.typeName) with
  | some typeName => checkChart typeName p.dir
  | none => .error (.validation s!"account not found: {p.accountId}")

def checkRows (t : Tables) (parsed : List ParsedEntry) : Except PostError Unit := do
  parsed.forM (checkActiveRow t)
  parsed.forM (checkDirectionRow t)

/-- The checks refuse the request with the error, on a table without its posting. -/
def Refusal (t : Tables) (sup : Supply) (req : PostingRequest) (e : PostError) : Prop :=
  validateRequest sup req = .error e ∨ ∃ parsed, validateRequest sup req = .ok parsed ∧
    ¬ t.HasPosting req.postingId ∧ checkRows t parsed = .error e

/-! ## 3. The transaction of a call that runs alone -/

def World.committed (w : World) (c : Commit) : World := { w with log := w.log ++ [c] }

section Rows

variable (digest : ByteArray → String) (salt : String) (call : PoolCall)

/-- The hashed entries of the call after the hash `h`. -/
def callLoop (parsed : List ParsedEntry) (h : String) : HashLoop :=
  hashEntries digest salt call.sup (call.sup.nowIso 0) call.req.postingId h parsed

/-- The rows of the call, hashed after `h` and numbered after `m`. -/
def callRows (parsed : List ParsedEntry) (h : String) (m : Nat) (anchors : List AnchorRow) :
    Tables :=
  { filledRows call (callLoop digest salt call parsed h) m with hashChain := anchors }

/-- The anchor the call inserts, unless there is one. -/
def callAnchors (t : Tables) (hashHead : String) : List AnchorRow :=
  if t.HasAnchor call.req.postingId then []
  else [anchorRow call.req.postingId (call.sup.nowIso 0) hashHead]

/-- The hash the entries follow when the read of the last hash answered `rd`. -/
def startHash (rd : Except String (Option String)) : String := (foundHash rd).getD genesisHash

/-- The transaction of the call, run alone from `w`, if its read of the last hash answered `rd`. -/
def callCommit (i : Nat) (w : World) (parsed : List ParsedEntry)
    (rd : Except String (Option String)) : Commit where
  session := i
  readAt := some ⟨w.log.length, foundHash rd⟩
  tables := callRows digest salt call parsed (startHash rd) (maxSequence w.db.entries)
    (callAnchors call w.db (callLoop digest salt call parsed (startHash rd)).prevHash)

/-- The event of the call. -/
def callEvent (l : HashLoop) : AuditEvent where
  eventId := call.sup.uuid l.entryIds.length
  postingId := call.req.postingId
  entryIds := l.entryIds
  hashHead := l.prevHash
  createdAt := call.sup.nowIso 0

/-- The cache of the replica after the call. -/
def callCache (l : HashLoop) (m : Nat) (state : LedgerState) : LedgerState :=
  (state.cachePosting call.req (call.sup.nowIso 0) l.prevHash (m + l.createdEntries.length)
    (numberFrom m l.createdEntries)).pushAudit (callEvent call l)

/-- The call posts its request: what it has found on the way. -/
structure FreshPost (clean : Prop) (w : World) (parsed : List ParsedEntry)
    (rd : Except String (Option String)) : Prop where
  valid : validateRequest call.sup call.req = .ok parsed
  lacks : ¬ w.db.HasPosting call.req.postingId
  accounts : checkRows w.db parsed = .ok ()
  read : Answers rd (IsLastHash w.db.entries)
  readOk : clean → ∃ found, rd = .ok found

/-- **The ways a call of `post` ends that runs alone** as session `i` from the world `w`; if
    `clean`, none of its statements fails. -/
inductive PostOutcome (clean : Prop) (replica : Nat → Nat) (i : Nat) (w : World) :
    Except PostError (PostingResponse × Bool) → World → Prop where
  | refused (e : PostError) (why : clean → Refusal w.db call.sup call.req e) :
      PostOutcome clean replica i w (.error e) w
  | abandoned (e : PostError) (rd : Except String (Option String)) (dirty : ¬ clean) :
      PostOutcome clean replica i w (.error e) (w.readLastHash i rd)
  | replayed (parsed : List ParsedEntry) (row : PostingRow) (entries : List EntryRow)
      (valid : validateRequest call.sup call.req = .ok parsed)
      (found : w.db.postings.find? (fun row => row.postingId == call.req.postingId) = some row)
      (ordered : Ordered (entriesOf w.db.entries call.req.postingId) entries) :
      PostOutcome clean replica i w
        (.ok (⟨row.postingId, row.status, entries.map (·.entryId), row.hashChainHead⟩, true)) w
  | unacknowledged (e : PostError) (parsed : List ParsedEntry)
      (rd : Except String (Option String)) (dirty : ¬ clean)
      (fresh : FreshPost call clean w parsed rd) :
      PostOutcome clean replica i w (.error e)
        ((w.readLastHash i rd).committed (callCommit digest salt call i w parsed rd))
  | posted (parsed : List ParsedEntry) (rd : Except String (Option String))
      (fresh : FreshPost call clean w parsed rd) :
      PostOutcome clean replica i w
        (.ok (⟨call.req.postingId, "POSTED",
          (callLoop digest salt call parsed (startHash rd)).entryIds,
          (callLoop digest salt call parsed (startHash rd)).prevHash⟩, false))
        { (w.readLastHash i rd).committed (callCommit digest salt call i w parsed rd) with
          inner := Function.update w.inner (replica i)
            (callCache call (callLoop digest salt call parsed (startHash rd))
              (maxSequence w.db.entries) (w.inner (replica i)))
          emitted := w.emitted ++
            if call.sink then [callEvent call (callLoop digest salt call parsed (startHash rd))]
            else [] }

end Rows

/-! ## 4. Statements, read back -/

section Statements

variable {clean : Prop} {replica : Nat → Nat} {i : Nat} {α : Type}

theorem ran_query_iff {E : (o : Stmt) → World → Reply o → World → Prop} {context : String}
    {p : Script Stmt Reply (Except String α)} {w w' : World} {r : Except PostError α} :
    Ran E (query context p).run w r w' ↔
      ∃ x, Ran E p w x w' ∧ r = x.mapError (dbError context) := by
  have hbind : Ran E (query context p).run w r w' ↔
      ∃ x t, Ran E p w x t ∧ Ran E (.ret (x.mapError (dbError context))) t r w' := ran_bind_iff
  rw [hbind]
  constructor
  · intro h
    obtain ⟨x, t, hp, hret⟩ := h
    obtain ⟨rfl, rfl⟩ := ran_ret_iff.mp hret
    exact ⟨x, hp, rfl⟩
  · intro h
    obtain ⟨x, hp, rfl⟩ := h
    exact ⟨x, w', hp, .ret _ _⟩

theorem ran_step_iff {E : (o : Stmt) → World → Reply o → World → Prop}
    {p : Script Stmt Reply α} {w w' : World} {r : Except PostError α} :
    Ran E (step p).run w r w' ↔ ∃ a, Ran E p w a w' ∧ r = .ok a := by
  have hbind : Ran E (step p).run w r w' ↔
      ∃ a t, Ran E p w a t ∧ Ran E (.ret (.ok a)) t r w' := ran_bind_iff
  rw [hbind]
  constructor
  · intro h
    obtain ⟨a, t, hp, hret⟩ := h
    obtain ⟨rfl, rfl⟩ := ran_ret_iff.mp hret
    exact ⟨a, hp, rfl⟩
  · intro h
    obtain ⟨a, hp, rfl⟩ := h
    exact ⟨a, w', hp, .ret _ _⟩

/-- A read that succeeded has answered what it asks for; one that failed ends the call. -/
theorem ran_read {context : String} {p : Script Stmt Reply (Except String α)} {P : α → Prop}
    {w w' : World} {r : Except PostError α}
    (hp : ∀ x t, Ran (ExecIf clean replica i) p w x t →
      (t = w ∧ Answers x P) ∧ (clean → ¬ ∃ e, x = .error e))
    (h : Ran (ExecIf clean replica i) (query context p).run w r w') :
    w' = w ∧ ((∃ a, r = .ok a ∧ P a) ∨ ¬ clean ∧ ∃ e, r = .error e) := by
  obtain ⟨x, hx, rfl⟩ := ran_query_iff.mp h
  obtain ⟨⟨rfl, hans⟩, hclean⟩ := hp x _ hx
  cases x with
  | error e => exact ⟨rfl, Or.inr ⟨fun hc => hclean hc ⟨e, rfl⟩, _, rfl⟩⟩
  | ok a => exact ⟨rfl, Or.inl ⟨a, rfl, hans a rfl⟩⟩

/-- A sequence that starts with a read goes on with what the read asks for, or the read failed. -/
theorem ran_read_bind {β : Type} {context : String} {p : Script Stmt Reply (Except String α)}
    {P : α → Prop} {f : α → Db β} {w w' : World} {r : Except PostError β}
    (hp : ∀ x t, Ran (ExecIf clean replica i) p w x t →
      (t = w ∧ Answers x P) ∧ (clean → ¬ ∃ e, x = .error e))
    (h : Ran (ExecIf clean replica i) (query context p >>= f).run w r w') :
    (∃ a, P a ∧ Ran (ExecIf clean replica i) (f a).run w r w') ∨
      ¬ clean ∧ (∃ e, r = .error e) ∧ w' = w := by
  have hread : ∀ x t, Ran (ExecIf clean replica i) (query context p).run w x t →
      (∃ a, x = .ok a ∧ P a ∧ t = w) ∨ ¬ clean ∧ (∃ e, x = .error e) ∧ t = w := by
    intro x t hx
    obtain ⟨rfl, ⟨a, hok, ha⟩ | ⟨hdirty, he⟩⟩ := ran_read hp hx
    · exact Or.inl ⟨a, hok, ha, rfl⟩
    · exact Or.inr ⟨hdirty, he, rfl⟩
  rcases ran_ok_bind_cases hread h with ⟨a, t, ⟨ha, rfl⟩, hrest⟩ | hstop
  · exact Or.inl ⟨a, ha, hrest⟩
  · exact Or.inr hstop

theorem ran_selectPosting {context id : String} {w w' : World}
    {r : Except PostError (Option PostingRow)}
    (h : Ran (ExecIf clean replica i) (query context (issue (.selectPosting id))).run w r w') :
    w' = w ∧ ((∃ a, r = .ok a ∧ a = w.db.postings.find? fun row => row.postingId == id) ∨
      ¬ clean ∧ ∃ e, r = .error e) :=
  ran_read (fun _ _ hx => ran_perform_iff.mp hx) h

theorem ran_checkActive {p : ParsedEntry} {w w' : World} {r : Except PostError Unit}
    (h : Ran (ExecIf clean replica i) (checkActiveDb p).run w r w') :
    w' = w ∧ (r = checkActiveRow w.db p ∨ ¬ clean ∧ ∃ e, r = .error e) := by
  rcases ran_read_bind (fun _ _ hx => ran_perform_iff.mp hx) h with
    ⟨a, hans, hrest⟩ | ⟨hdirty, he, rfl⟩
  · unfold checkActiveRow Tables.account
    rw [← hans]
    cases a with
    | none =>
      obtain ⟨rfl, rfl⟩ := ran_ok_throw_iff.mp hrest
      exact ⟨rfl, Or.inl rfl⟩
    | some status =>
      by_cases hs : status ≠ "ACTIVE"
      · simp only [hs, ne_eq, not_false_eq_true, if_true] at hrest ⊢
        obtain ⟨rfl, rfl⟩ := ran_ok_throw_iff.mp hrest
        exact ⟨rfl, Or.inl rfl⟩
      · simp only [hs, if_false] at hrest ⊢
        obtain ⟨rfl, rfl⟩ := ran_ok_pure_iff.mp hrest
        exact ⟨rfl, Or.inl rfl⟩
  · exact ⟨rfl, Or.inr ⟨hdirty, he⟩⟩

theorem ran_checkDirection {p : ParsedEntry} {w w' : World} {r : Except PostError Unit}
    (h : Ran (ExecIf clean replica i) (checkDirectionDb p).run w r w') :
    w' = w ∧ (r = checkDirectionRow w.db p ∨ ¬ clean ∧ ∃ e, r = .error e) := by
  rcases ran_read_bind (fun _ _ hx => ran_perform_iff.mp hx) h with
    ⟨a, hans, hrest⟩ | ⟨hdirty, he, rfl⟩
  · unfold checkDirectionRow Tables.account
    rw [← hans]
    cases a with
    | none =>
      obtain ⟨rfl, rfl⟩ := ran_ok_throw_iff.mp hrest
      exact ⟨rfl, Or.inl rfl⟩
    | some typeName =>
      obtain ⟨rfl, rfl⟩ := ran_ret_iff.mp hrest
      exact ⟨rfl, Or.inl rfl⟩
  · exact ⟨rfl, Or.inr ⟨hdirty, he⟩⟩

theorem ran_replay {id : String} {p : PostingRow} {w w' : World}
    {r : Except PostError (PostingResponse × Bool)}
    (h : Ran (ExecIf clean replica i) (replayFromDb id p).run w r w') :
    w' = w ∧ ((∃ entries, Ordered (entriesOf w.db.entries id) entries ∧
        r = .ok (⟨p.postingId, p.status, entries.map (·.entryId), p.hashChainHead⟩, true)) ∨
      ¬ clean ∧ ∃ e, r = .error e) := by
  rcases ran_read_bind (fun _ _ hx => ran_perform_iff.mp hx) h with
    ⟨entries, hans, hrest⟩ | ⟨hdirty, he, rfl⟩
  · obtain ⟨rfl, rfl⟩ := ran_ok_pure_iff.mp hrest
    exact ⟨rfl, Or.inl ⟨entries, hans, rfl⟩⟩
  · exact ⟨rfl, Or.inr ⟨hdirty, he⟩⟩

/-! ## 5. The transaction, read back -/

theorem setTx_setTx (w : World) (t u : Tables) : (w.setTx i t).setTx i u = w.setTx i u := by
  unfold World.setTx
  rw [AList.insert_insert]

theorem erase_insert {s : AList (fun _ : Nat => Tables)} (h : s.lookup i = none) (t : Tables) :
    (s.insert i t).erase i = s := by
  have hmem : i ∉ s := AList.lookup_eq_none.mp h
  refine AList.ext ?_
  show List.kerase i (s.insert i t).entries = s.entries
  rw [AList.entries_insert_of_notMem hmem]
  exact List.kerase_cons_eq rfl

theorem discard_setTx {w : World} (h : w.txs.lookup i = none) (t : Tables) :
    (w.setTx i t).discard i = w := by
  unfold World.discard World.setTx
  rw [erase_insert h]

theorem applyCommit_setTx {w : World} (h : w.txs.lookup i = none) (t : Tables) :
    (w.setTx i t).applyCommit i t = w.committed ⟨i, w.lastHashRead i, t⟩ := by
  unfold World.applyCommit World.committed World.setTx
  simp only [erase_insert h]

theorem ran_orRollback {p : Db α} {w w' : World} {r : Except PostError α}
    (h : Ran (ExecIf clean replica i) (orRollback p).run w r w') :
    (∃ a, Ran (ExecIf clean replica i) p.run w (.ok a) w' ∧ r = .ok a) ∨
      ∃ e t, Ran (ExecIf clean replica i) p.run w (.error e) t ∧ r = .error e ∧
        w' = t.discard i := by
  obtain ⟨x, t, hp, hrest⟩ := ran_bind_iff.mp h
  cases x with
  | ok a =>
    obtain ⟨rfl, rfl⟩ := ran_ret_iff.mp hrest
    exact Or.inl ⟨a, hp, rfl⟩
  | error e =>
    obtain ⟨u, v, hroll, hret⟩ := ran_bind_iff.mp hrest
    obtain ⟨hdiscard, _⟩ := ran_perform_iff.mp hroll
    obtain ⟨rfl, rfl⟩ := ran_ret_iff.mp hret
    exact Or.inr ⟨e, t, hp, rfl, hdiscard⟩

theorem ran_insertEntry {context : String} {row : EntryRow} {v w' : World} {t : Tables}
    {r : Except PostError Unit}
    (h : Ran (ExecIf clean replica i) (query context (issue (.insertEntry row))).run
      (v.setTx i t) r w') :
    (r = .ok () ∧ w' = v.setTx i (t.addEntry row)) ∨
      ¬ clean ∧ (∃ e, r = .error e) ∧ w' = v.setTx i t := by
  obtain ⟨x, hx, rfl⟩ := ran_query_iff.mp h
  obtain ⟨hexec, hclean⟩ := ran_perform_iff.mp hx
  rcases hexec with ⟨e, rfl, rfl⟩ | ⟨u, hu, rfl, _, rfl⟩
  · exact Or.inr ⟨fun hc => hclean hc ⟨e, rfl⟩, ⟨_, rfl⟩, rfl⟩
  · have hut : u = t := Option.some.inj (hu.symm.trans (lookup_setTx v t))
    rw [hut, setTx_setTx]
    exact Or.inl ⟨rfl, rfl⟩

/-- The loop numbers and inserts the entries, or stops in the middle. -/
theorem ran_insertEntries {v w' : World} {entries : List EntryRecord} {k : Nat} {t : Tables}
    {r : Except PostError (Nat × List EntryRecord)}
    (h : Ran (ExecIf clean replica i) (insertEntries k entries).run (v.setTx i t) r w') :
    (r = .ok (k + entries.length, numberFrom k entries) ∧
        w' = v.setTx i { t with entries := t.entries ++ (numberFrom k entries).map (·.row) }) ∨
      ¬ clean ∧ (∃ e, r = .error e) ∧ ∃ u, w' = v.setTx i u := by
  induction entries generalizing k t r w' with
  | nil =>
    obtain ⟨rfl, rfl⟩ := ran_ok_pure_iff.mp h
    refine Or.inl ⟨rfl, ?_⟩
    simp [numberFrom]
  | cons e rest ih =>
    rcases ran_ok_bind_next (fun _ _ hq => ran_insertEntry hq) h with hrest | ⟨hdirty, he, rfl⟩
    · rcases ran_ok_bind_next (fun _ _ hloop => ih hloop) hrest with hpure | ⟨hdirty, he, hstate⟩
      · obtain ⟨rfl, rfl⟩ := ran_ok_pure_iff.mp hpure
        refine Or.inl ⟨?_, ?_⟩
        · simp only [numberFrom, List.length_cons, Except.ok.injEq, Prod.mk.injEq, and_true]
          omega
        · simp [numberFrom, Tables.addEntry]
      · exact Or.inr ⟨hdirty, he, hstate⟩
    · exact Or.inr ⟨hdirty, he, t, rfl⟩

theorem ran_insertAnchor {context : String} {row : AnchorRow} {v w' : World} {t : Tables}
    (ht : t.hashChain = []) {r : Except PostError Unit}
    (h : Ran (ExecIf clean replica i) (query context (issue (.insertAnchor row))).run
      (v.setTx i t) r w') :
    (r = .ok () ∧ w' = v.setTx i { t with
        hashChain := (if v.db.HasAnchor row.postingId then [] else [row]) }) ∨
      ¬ clean ∧ (∃ e, r = .error e) ∧ w' = v.setTx i t := by
  obtain ⟨x, hx, rfl⟩ := ran_query_iff.mp h
  obtain ⟨hexec, hclean⟩ := ran_perform_iff.mp hx
  rcases hexec with ⟨e, rfl, rfl⟩ | ⟨u, hu, rfl, _, hwrite⟩
  · exact Or.inr ⟨fun hc => hclean hc ⟨e, rfl⟩, ⟨_, rfl⟩, rfl⟩
  · have hut : u = t := Option.some.inj (hu.symm.trans (lookup_setTx v t))
    subst hut
    refine Or.inl ⟨rfl, ?_⟩
    rcases hwrite with ⟨hhas, rfl⟩ | ⟨hfree, rfl⟩
    · have hdb : v.db.HasAnchor row.postingId := by
        rcases hhas with hdb | ⟨row', hrow, _⟩
        · exact hdb
        · rw [ht] at hrow
          exact absurd hrow List.not_mem_nil
      rw [if_pos hdb, ← ht]
    · have hdb : ¬ v.db.HasAnchor row.postingId := hfree.1
      rw [if_neg hdb, setTx_setTx]
      unfold Tables.addAnchor
      rw [ht, List.nil_append]

theorem ran_insertRow {context : String} {row : PostingRow} {v w' : World}
    (hlacks : ¬ v.db.HasPosting row.postingId) {r : Except PostError Nat}
    (h : Ran (ExecIf clean replica i) (query context (issue (.insertPosting row))).run
      (v.setTx i .empty) r w') :
    (r = .ok 1 ∧ w' = v.setTx i (Tables.empty.addPosting row)) ∨
      ¬ clean ∧ (∃ e, r = .error e) ∧ w' = v.setTx i .empty := by
  obtain ⟨x, hx, rfl⟩ := ran_query_iff.mp h
  obtain ⟨hexec, hclean⟩ := ran_perform_iff.mp hx
  rcases hexec with ⟨e, rfl, rfl⟩ | ⟨u, hu, ⟨_, hhas, _⟩ | ⟨rfl, _, rfl⟩⟩
  · exact Or.inr ⟨fun hc => hclean hc ⟨e, rfl⟩, ⟨_, rfl⟩, rfl⟩
  · have hut : u = .empty := Option.some.inj (hu.symm.trans (lookup_setTx v _))
    subst hut
    rcases hhas with hdb | ⟨row', hrow, _⟩
    · exact absurd hdb hlacks
    · exact absurd hrow List.not_mem_nil
  · have hut : u = .empty := Option.some.inj (hu.symm.trans (lookup_setTx v _))
    rw [hut, setTx_setTx]
    exact Or.inl ⟨rfl, rfl⟩

/-- **The transaction of a posting that is not there is filled**, or the statements stop in the
    middle. -/
theorem ran_insertPosting {call : PoolCall} {l : HashLoop} {v w' : World}
    (hlacks : ¬ v.db.HasPosting call.req.postingId)
    {r : Except PostError (Option (Nat × List EntryRecord))}
    (h : Ran (ExecIf clean replica i) (insertPosting call.req (call.sup.nowIso 0) l).run
      (v.setTx i .empty) r w') :
    (r = .ok (some (maxSequence v.db.entries + l.createdEntries.length,
          numberFrom (maxSequence v.db.entries) l.createdEntries)) ∧
        w' = v.setTx i { filledRows call l (maxSequence v.db.entries) with
          hashChain := callAnchors call v.db l.prevHash }) ∨
      ¬ clean ∧ (∃ e, r = .error e) ∧ ∃ u, w' = v.setTx i u := by
  rcases ran_ok_bind_next (fun _ _ hq => ran_insertRow hlacks hq) h with
    hrest | ⟨hdirty, he, rfl⟩
  swap
  · exact Or.inr ⟨hdirty, he, _, rfl⟩
  simp only [one_ne_zero, if_false] at hrest
  rcases ran_read_bind (fun _ _ hx => ran_perform_iff.mp hx) hrest with
    ⟨m, hmax, hrest⟩ | ⟨hdirty, he, rfl⟩
  swap
  · exact Or.inr ⟨hdirty, he, _, rfl⟩
  have hm : m = maxSequence v.db.entries := hmax
  subst hm
  rcases ran_ok_bind_next (fun _ _ hq => ran_insertEntries hq) hrest with
    hrest | ⟨hdirty, he, hstate⟩
  swap
  · exact Or.inr ⟨hdirty, he, hstate⟩
  rcases ran_ok_bind_next (fun _ _ hq => ran_insertAnchor rfl hq) hrest with
    hrest | ⟨hdirty, he, rfl⟩
  swap
  · exact Or.inr ⟨hdirty, he, _, rfl⟩
  obtain ⟨rfl, rfl⟩ := ran_ok_pure_iff.mp hrest
  exact Or.inl ⟨rfl, rfl⟩

theorem ran_commit {context : String} {v w' : World} (hv : v.txs.lookup i = none) {t : Tables}
    {r : Except PostError Unit}
    (h : Ran (ExecIf clean replica i) (query context (issue .commit)).run (v.setTx i t) r w') :
    (r = .ok () ∧ w' = v.committed ⟨i, v.lastHashRead i, t⟩) ∨
      ¬ clean ∧ (∃ e, r = .error e) ∧ (w' = v ∨ w' = v.committed ⟨i, v.lastHashRead i, t⟩) := by
  obtain ⟨x, hx, rfl⟩ := ran_query_iff.mp h
  obtain ⟨hexec, hclean⟩ := ran_perform_iff.mp hx
  rcases hexec with ⟨e, rfl, rfl⟩ | ⟨u, hu, rfl⟩
  · exact Or.inr ⟨fun hc => hclean hc ⟨e, rfl⟩, ⟨_, rfl⟩, Or.inl (discard_setTx hv t)⟩
  · have hut : u = t := Option.some.inj (hu.symm.trans (lookup_setTx v t))
    rw [hut, applyCommit_setTx hv]
    cases x with
    | error e => exact Or.inr ⟨fun hc => hclean hc ⟨e, rfl⟩, ⟨_, rfl⟩, Or.inr rfl⟩
    | ok a => exact Or.inl ⟨rfl, rfl⟩

theorem ran_cache {f : LedgerState → LedgerState} {w w' : World} {r : Except PostError Unit}
    (h : Ran (ExecIf clean replica i) (step (issue (.cache f))).run w r w') :
    r = .ok () ∧
      w' = { w with inner := Function.update w.inner (replica i) (f (w.inner (replica i))) } := by
  obtain ⟨_, hx, rfl⟩ := ran_step_iff.mp h
  obtain ⟨hexec, _⟩ := ran_perform_iff.mp hx
  exact ⟨rfl, hexec⟩

theorem ran_emitTo {sink : Bool} {event : AuditEvent} {w w' : World} {r : Except PostError Unit}
    (h : Ran (ExecIf clean replica i) (emitTo sink event).run w r w') :
    r = .ok () ∧ w' = { w with emitted := w.emitted ++ if sink then [event] else [] } := by
  cases sink with
  | false =>
    obtain ⟨rfl, rfl⟩ := ran_ok_pure_iff.mp h
    simp
  | true =>
    obtain ⟨_, hx, rfl⟩ := ran_step_iff.mp h
    obtain ⟨hexec, _⟩ := ran_perform_iff.mp hx
    exact ⟨rfl, hexec⟩

end Statements

/-! ## 6. The outcomes of a call -/

/-- The read of a posting that finds nothing. -/
theorem not_hasPosting_of_find {t : Tables} {id : String}
    (h : (t.postings.find? fun row => row.postingId == id) = none) : ¬ t.HasPosting id := by
  intro hhas
  obtain ⟨row, hrow, hid⟩ := hhas
  have hnone := List.find?_eq_none.mp h row hrow
  simp [hid] at hnone

section Outcome

variable {digest : ByteArray → String} {salt : String} {call : PoolCall} {clean : Prop}
  {replica : Nat → Nat} {i : Nat} {w w' : World} {parsed : List ParsedEntry}

theorem ran_lastEntryHash {r : Except PostError String}
    (h : Ran (ExecIf clean replica i) (step lastEntryHash).run w r w') :
    ∃ rd, Answers rd (IsLastHash w.db.entries) ∧ (clean → ∃ found, rd = .ok found) ∧
      r = .ok (startHash rd) ∧ w' = w.readLastHash i rd := by
  obtain ⟨g, hg, rfl⟩ := ran_step_iff.mp h
  obtain ⟨rd, t, hread, hret⟩ := ran_bind_iff.mp hg
  obtain ⟨⟨rfl, hans⟩, hclean⟩ := ran_perform_iff.mp hread
  obtain ⟨rfl, rfl⟩ := ran_ret_iff.mp hret
  refine ⟨rd, hans, fun hc => ?_, rfl, rfl⟩
  cases rd with
  | error e => exact absurd ⟨e, rfl⟩ (hclean hc)
  | ok found => exact ⟨found, rfl⟩

theorem ran_begin {context : String} {r : Except PostError Unit}
    (h : Ran (ExecIf clean replica i) (query context (issue .begin)).run w r w') :
    (r = .ok () ∧ w' = w.setTx i .empty) ∨ ¬ clean ∧ (∃ e, r = .error e) ∧ w' = w := by
  obtain ⟨x, hx, rfl⟩ := ran_query_iff.mp h
  obtain ⟨hexec, hclean⟩ := ran_perform_iff.mp hx
  rcases hexec with ⟨e, rfl, rfl⟩ | ⟨rfl, rfl⟩
  · exact Or.inr ⟨fun hc => hclean hc ⟨e, rfl⟩, ⟨_, rfl⟩, rfl⟩
  · exact Or.inl ⟨rfl, rfl⟩

/-- The transaction up to its commit is filled, or rolled back. -/
theorem ran_transaction {l : HashLoop} {v : World} (hv : v.txs.lookup i = none)
    (hlacks : ¬ v.db.HasPosting call.req.postingId)
    {r : Except PostError (Option (Nat × List EntryRecord))}
    (h : Ran (ExecIf clean replica i)
      (orRollback (insertPosting call.req (call.sup.nowIso 0) l)).run (v.setTx i .empty) r w') :
    (r = .ok (some (maxSequence v.db.entries + l.createdEntries.length,
          numberFrom (maxSequence v.db.entries) l.createdEntries)) ∧
        w' = v.setTx i { filledRows call l (maxSequence v.db.entries) with
          hashChain := callAnchors call v.db l.prevHash }) ∨
      ¬ clean ∧ (∃ e, r = .error e) ∧ w' = v := by
  rcases ran_orRollback h with ⟨a, hins, rfl⟩ | ⟨e, t, hins, rfl, rfl⟩
  · rcases ran_insertPosting hlacks hins with ⟨hok, rfl⟩ | ⟨_, ⟨_, herr⟩, _⟩
    · exact Or.inl ⟨hok, rfl⟩
    · cases herr
  · rcases ran_insertPosting hlacks hins with ⟨hok, _⟩ | ⟨hdirty, _, u, rfl⟩
    · cases hok
    · exact Or.inr ⟨hdirty, ⟨e, rfl⟩, discard_setTx hv u⟩

/-- What follows the inserts: the commit, the caches and the sink. -/
theorem ran_finish {l : HashLoop} {m : Nat} {created : List EntryRecord} {v : World}
    (hv : v.txs.lookup i = none) {t : Tables} {r : Except PostError (PostingResponse × Bool)}
    (h : Ran (ExecIf clean replica i) (do
      query "post: commit" (issue .commit)
      step (issue (.cache fun state =>
        state.cachePosting call.req (call.sup.nowIso 0) l.prevHash m created))
      step (issue (.cache fun state => state.pushAudit (callEvent call l)))
      emitTo call.sink (callEvent call l)
      return (⟨call.req.postingId, "POSTED", l.entryIds, l.prevHash⟩, false) :
        Db (PostingResponse × Bool)).run (v.setTx i t) r w') :
    (r = .ok (⟨call.req.postingId, "POSTED", l.entryIds, l.prevHash⟩, false) ∧
        w' = { v.committed ⟨i, v.lastHashRead i, t⟩ with
          inner := Function.update v.inner (replica i)
            (((v.inner (replica i)).cachePosting call.req (call.sup.nowIso 0) l.prevHash m
              created).pushAudit (callEvent call l))
          emitted := v.emitted ++ if call.sink then [callEvent call l] else [] }) ∨
      ¬ clean ∧ (∃ e, r = .error e) ∧ (w' = v ∨ w' = v.committed ⟨i, v.lastHashRead i, t⟩) := by
  rcases ran_ok_bind_next (fun _ _ hq => ran_commit hv hq) h with hrest | ⟨hdirty, he, hstate⟩
  swap
  · exact Or.inr ⟨hdirty, he, hstate⟩
  have hrecord := ran_ok_bind_ok (fun _ _ hq => ran_cache hq) hrest
  have hsend := ran_ok_bind_ok (fun _ _ hq => ran_cache hq) hrecord
  have hreturn := ran_ok_bind_ok (fun _ _ hq => ran_emitTo hq) hsend
  obtain ⟨rfl, rfl⟩ := ran_ok_pure_iff.mp hreturn
  refine Or.inl ⟨rfl, ?_⟩
  simp only [Function.update_self, Function.update_idem]
  rfl

theorem ran_postFresh (hw : w.txs.lookup i = none)
    (hvalid : validateRequest call.sup call.req = .ok parsed)
    (hlacks : ¬ w.db.HasPosting call.req.postingId) (haccounts : checkRows w.db parsed = .ok ())
    {r : Except PostError (PostingResponse × Bool)}
    (h : Ran (ExecIf clean replica i)
      (postFresh digest salt call.sup call.sink call.req parsed).run w r w') :
    PostOutcome digest salt call clean replica i w r w' := by
  rcases ran_ok_bind_iff.mp h with ⟨e, hq, rfl⟩ | ⟨g, v, hq, hrest⟩
  · obtain ⟨_, _, _, hok, _⟩ := ran_lastEntryHash hq
    cases hok
  obtain ⟨rd, hans, hread, hok, rfl⟩ := ran_lastEntryHash hq
  cases hok
  have hfresh : FreshPost call clean w parsed rd := ⟨hvalid, hlacks, haccounts, hans, hread⟩
  have hv : (w.readLastHash i rd).txs.lookup i = none := hw
  have hvlacks : ¬ (w.readLastHash i rd).db.HasPosting call.req.postingId := hlacks
  rcases ran_ok_bind_next (fun _ _ hq => ran_begin hq) hrest with
    hrest | ⟨hdirty, ⟨e, rfl⟩, rfl⟩
  swap
  · exact .abandoned e rd hdirty
  rcases ran_ok_bind_next (fun _ _ hq => ran_transaction hv hvlacks hq) hrest with
    hrest | ⟨hdirty, ⟨e, rfl⟩, rfl⟩
  swap
  · exact .abandoned e rd hdirty
  rcases ran_finish hv hrest with ⟨rfl, rfl⟩ | ⟨hdirty, ⟨e, rfl⟩, hstate⟩
  · rw [readLastHash_self]
    exact .posted parsed rd hfresh
  · rcases hstate with rfl | rfl
    · exact .abandoned e rd hdirty
    · rw [readLastHash_self]
      exact .unacknowledged e parsed rd hdirty hfresh

/-- **A call that runs alone ends in one of the ways of `PostOutcome`.** -/
theorem postPool_outcome (hw : w.txs.lookup i = none)
    {r : Except PostError (PostingResponse × Bool)}
    (h : Ran (ExecIf clean replica i) (postPool digest salt call.sup call.sink call.req) w r w') :
    PostOutcome digest salt call clean replica i w r w' := by
  unfold postPool at h
  cases hvalid : validateRequest call.sup call.req with
  | error e =>
    rw [hvalid] at h
    obtain ⟨rfl, rfl⟩ := ran_ret_iff.mp h
    exact .refused e fun _ => Or.inl hvalid
  | ok parsed =>
    rw [hvalid] at h
    rcases ran_read_bind (fun _ _ hx => ran_perform_iff.mp hx) h with
      ⟨found, hfound, hrest⟩ | ⟨hdirty, ⟨e, rfl⟩, rfl⟩
    case inr => exact .refused e fun hc => absurd hc hdirty
    have hfound : found = w.db.postings.find? fun row => row.postingId == call.req.postingId :=
      hfound
    cases found with
    | some row =>
      obtain ⟨rfl, ⟨entries, hordered, rfl⟩ | ⟨hdirty, e, rfl⟩⟩ := ran_replay hrest
      · exact .replayed parsed row entries hvalid hfound.symm hordered
      · exact .refused e fun hc => absurd hc hdirty
    | none =>
      have hlacks := not_hasPosting_of_find hfound.symm
      rcases ran_ok_bind_iff.mp hrest with ⟨e, hq, rfl⟩ | ⟨_, u, hq, hchecks⟩
      · obtain ⟨rfl, herr | ⟨hdirty, _⟩⟩ := ran_forM_reads (fun _ _ _ => ran_checkActive) hq
        · refine .refused e fun _ => Or.inr ⟨parsed, hvalid, hlacks, ?_⟩
          unfold checkRows
          rw [← herr]
          rfl
        · exact .refused e fun hc => absurd hc hdirty
      obtain ⟨rfl, hactive | ⟨_, _, herr⟩⟩ := ran_forM_reads (fun _ _ _ => ran_checkActive) hq
      case inr => cases herr
      rcases ran_ok_bind_iff.mp hchecks with ⟨e, hdir, rfl⟩ | ⟨_, u, hdir, hpost⟩
      · obtain ⟨rfl, herr | ⟨hdirty, _⟩⟩ := ran_forM_reads (fun _ _ _ => ran_checkDirection) hdir
        · refine .refused e fun _ => Or.inr ⟨parsed, hvalid, hlacks, ?_⟩
          unfold checkRows
          rw [← hactive, ← herr]
          rfl
        · exact .refused e fun hc => absurd hc hdirty
      obtain ⟨rfl, hdirection | ⟨_, _, herr⟩⟩ :=
        ran_forM_reads (fun _ _ _ => ran_checkDirection) hdir
      case inr => cases herr
      refine ran_postFresh hw hvalid hlacks ?_ hpost
      unfold checkRows
      rw [← hactive, ← hdirection]
      rfl

/-- What every outcome does to the tables: nothing, or the one transaction of the call is
    committed. -/
theorem PostOutcome.log {r : Except PostError (PostingResponse × Bool)}
    (h : PostOutcome digest salt call clean replica i w r w') :
    w'.base = w.base ∧ w'.txs = w.txs ∧ (w'.log = w.log ∨ ∃ parsed rd,
      FreshPost call clean w parsed rd ∧
        w'.log = w.log ++ [callCommit digest salt call i w parsed rd]) := by
  cases h with
  | refused e why => exact ⟨rfl, rfl, Or.inl rfl⟩
  | abandoned e rd dirty => exact ⟨rfl, rfl, Or.inl rfl⟩
  | replayed parsed row entries valid found ordered => exact ⟨rfl, rfl, Or.inl rfl⟩
  | unacknowledged e parsed rd dirty fresh => exact ⟨rfl, rfl, Or.inr ⟨parsed, rd, fresh, rfl⟩⟩
  | posted parsed rd fresh => exact ⟨rfl, rfl, Or.inr ⟨parsed, rd, fresh, rfl⟩⟩

/-- The transaction of the call holds the rows of its posting, numbered after the last row. -/
theorem callCommit_booked (digest : ByteArray → String) (salt : String) (call : PoolCall) (i : Nat)
    (w : World) (parsed : List ParsedEntry) (rd : Except String (Option String)) :
    Booked digest salt call parsed (maxSequence w.db.entries) (startHash rd)
      (callCommit digest salt call i w parsed rd).tables :=
  filledRows_booked call parsed _ _ _

end Outcome

/-! ## 7. Calls one after another -/

theorem tablesAfter_accounts (base : Tables) (log : List Commit) :
    (tablesAfter base log).accounts = base.accounts ++ log.flatMap (·.tables.accounts) :=
  tablesAfter_rows Tables.accounts (fun _ _ => rfl) base log

/-- The checks read the accounts only. -/
theorem checkRows_congr {t u : Tables} (h : t.accounts = u.accounts) :
    checkRows t = checkRows u := by
  unfold checkRows checkActiveRow checkDirectionRow Tables.account
  rw [h]

section Runs

variable (digest : ByteArray → String) (salt : String) (calls : Nat → PoolCall)

/-- **Calls that do not overlap**: from the world `w` on, the calls from number `n` on are made one
    after another, each in a session of its own; their answers, and the world they leave. -/
inductive PostsFrom (clean : Prop) (replica : Nat → Nat) (n : Nat) (w : World) :
    List (Except PostError (PostingResponse × Bool)) → World → Prop where
  | start : PostsFrom clean replica n w [] w
  | post {answers : List (Except PostError (PostingResponse × Bool))}
      {r : Except PostError (PostingResponse × Bool)} {v v' : World}
      (before : PostsFrom clean replica n w answers v)
      (ran : Ran (ExecIf clean replica (n + answers.length)) (postPool digest salt
        (calls (n + answers.length)).sup (calls (n + answers.length)).sink
        (calls (n + answers.length)).req) v r v') :
      PostsFrom clean replica n w (answers ++ [r]) v'

/-- The calls from the first one on, on the given tables. -/
abbrev Sequential (clean : Prop) (replica : Nat → Nat) (base : Tables) (inner : Nat → LedgerState)
    (answers : List (Except PostError (PostingResponse × Bool))) (w : World) : Prop :=
  PostsFrom digest salt calls clean replica 0 (World.start base inner) answers w

variable {digest salt calls} {clean : Prop} {replica : Nat → Nat} {n : Nat} {w w' : World}
  {answers : List (Except PostError (PostingResponse × Bool))}

/-- Between the calls no transaction is open. -/
theorem PostsFrom.idle (h : PostsFrom digest salt calls clean replica n w answers w')
    (hw : w.txs = ∅) : w'.txs = ∅ := by
  induction h with
  | start => exact hw
  | @post answers r v v' before ran ih =>
    have hv : v.txs.lookup (n + answers.length) = none := by
      rw [ih]
      rfl
    exact (postPool_outcome hv ran).log.2.1.trans ih

/-- The outcome of one of the calls. -/
theorem PostsFrom.outcome (h : PostsFrom digest salt calls clean replica n w answers w')
    (hw : w.txs = ∅) {clean' : Prop} {i : Nat} {call : PoolCall}
    {r : Except PostError (PostingResponse × Bool)} {w'' : World}
    (hran : Ran (ExecIf clean' replica i) (postPool digest salt call.sup call.sink call.req)
      w' r w'') :
    PostOutcome digest salt call clean' replica i w' r w'' := by
  refine postPool_outcome ?_ hran
  rw [h.idle hw]
  rfl

theorem PostsFrom.mono {clean' : Prop} (hc : clean' → clean)
    (h : PostsFrom digest salt calls clean replica n w answers w') :
    PostsFrom digest salt calls clean' replica n w answers w' := by
  induction h with
  | start => exact .start
  | post before ran ih =>
    exact .post ih (ran.imp fun _ _ _ _ he => ⟨he.1, fun hc' => he.2 (hc hc')⟩)

/-- Calls after calls are calls. -/
theorem PostsFrom.append {more : List (Except PostError (PostingResponse × Bool))} {w'' : World}
    (h : PostsFrom digest salt calls clean replica n w answers w')
    (h' : PostsFrom digest salt calls clean replica (n + answers.length) w' more w'') :
    PostsFrom digest salt calls clean replica n w (answers ++ more) w'' := by
  induction h' with
  | start =>
    rw [List.append_nil]
    exact h
  | @post more r v v' before ran ih =>
    rw [← List.append_assoc]
    refine .post ih ?_
    rw [List.length_append, ← Nat.add_assoc]
    exact ran

/-- The transactions of the calls are those of their sessions; they bring no account. -/
theorem PostsFrom.commits (h : PostsFrom digest salt calls clean replica n w answers w')
    (hw : w.txs = ∅) : w'.base = w.base ∧ ∃ rest, w'.log = w.log ++ rest ∧
      ∀ c ∈ rest, n ≤ c.session ∧ c.session < n + answers.length ∧ c.tables.accounts = [] := by
  induction h with
  | start => exact ⟨rfl, [], (List.append_nil _).symm, fun c hc => absurd hc List.not_mem_nil⟩
  | @post answers r v v' before ran ih =>
    obtain ⟨hb, rest, hrest, hall⟩ := ih
    have hlen : (answers ++ [r]).length = answers.length + 1 := by simp
    have hbefore : ∀ c ∈ rest, n ≤ c.session ∧ c.session < n + (answers ++ [r]).length ∧
        c.tables.accounts = [] := by
      intro c hc
      obtain ⟨hlow, hhigh, hacc⟩ := hall c hc
      exact ⟨hlow, by omega, hacc⟩
    obtain ⟨hb', _, hlog | ⟨parsed, rd, _, hlog⟩⟩ := (before.outcome hw ran).log
    · exact ⟨hb'.trans hb, rest, hlog.trans hrest, hbefore⟩
    · refine ⟨hb'.trans hb, rest ++ [_], by rw [hlog, hrest, List.append_assoc], fun c hc => ?_⟩
      rcases List.mem_append.mp hc with hin | hin
      · exact hbefore c hin
      · rw [List.mem_singleton.mp hin]
        refine ⟨Nat.le_add_right _ _, ?_, rfl⟩
        rw [hlen]
        exact Nat.lt_succ_self _

theorem PostsFrom.accounts (h : PostsFrom digest salt calls clean replica n w answers w')
    (hw : w.txs = ∅) : w'.db.accounts = w.db.accounts := by
  obtain ⟨hb, rest, hlog, hrest⟩ := h.commits hw
  have hnone : rest.flatMap (·.tables.accounts) = [] :=
    List.flatMap_eq_nil_iff.mpr fun c hc => (hrest c hc).2.2
  unfold World.db
  rw [hb, hlog, tablesAfter_accounts, tablesAfter_accounts, List.flatMap_append, hnone,
    List.append_nil]

/-- **Calls one after another are an interleaving**: those that have been made have ended with
    their answers, the others have not started. -/
theorem Sequential.interleaved {base : Tables} {inner : Nat → LedgerState}
    (h : Sequential digest salt calls clean replica base inner answers w) :
    ∃ threads, Interleaved digest salt calls replica base inner ⟨w, threads⟩ ∧
      (∀ i (hi : i < answers.length), threads i = .ret answers[i]) ∧
      ∀ i, answers.length ≤ i →
        threads i = postPool digest salt (calls i).sup (calls i).sink (calls i).req := by
  induction h with
  | start => exact ⟨_, .refl, fun i hi => absurd hi (Nat.not_lt_zero i), fun _ _ => rfl⟩
  | @post answers r v v' before ran ih =>
    obtain ⟨threads, hreach, hdone, hnext⟩ := ih
    rw [Nat.zero_add] at ran
    have hran := (ran.imp fun _ _ _ _ he => he.1).reach (hnext _ le_rfl)
    refine ⟨_, hreach.trans hran, fun i hi => ?_, fun i hi => ?_⟩
    · rcases Nat.lt_or_eq_of_le (Nat.le_of_lt_succ (by simpa using hi)) with hlt | rfl
      · rw [Function.update_of_ne hlt.ne, hdone i hlt, List.getElem_append_left hlt]
      · rw [Function.update_self]
        simp
    · rw [List.length_append, List.length_singleton] at hi
      rw [Function.update_of_ne (Nat.ne_of_gt hi)]
      exact hnext i (Nat.le_of_succ_le hi)

/-- **The invariant of concurrent calls holds after every sequential run.** -/
theorem Sequential.poolInv {base : Tables} {inner : Nat → LedgerState}
    (h : Sequential digest salt calls clean replica base inner answers w) :
    PoolInv digest salt calls w ∧ w.base = base := by
  obtain ⟨threads, hreach, _⟩ := h.interleaved
  exact ⟨(interleaved_sound hreach).1, interleaved_base hreach⟩

end Runs

/-! ## 8. The first call of the samples -/

/-- The call of session `i` of Sequence.lean. -/
def samplePost (i : Nat) : Script Stmt Reply (Except PostError (PostingResponse × Bool)) :=
  postPool plainDigest sampleSalt (sampleTwo i).sup (sampleTwo i).sink (sampleTwo i).req

/-- The first call, with nothing failing. -/
def sampleFirst : Except PostError (PostingResponse × Bool) × World :=
  (runAlone (exec id 0) (samplePost 0) (World.start sampleTables fun _ => .new)).get
    (by decide +kernel)

theorem sampleFirst_sequential (clean : Prop) : Sequential plainDigest sampleSalt sampleTwo clean id
    sampleTables (fun _ => .new) [sampleFirst.1] sampleFirst.2 :=
  .post .start (ran_runAlone (exec_clean clean id 0) _ _ _)

/-- That call, the same request again, and a request with one side only. -/
def sampleAgain : Nat → PoolCall
  | 0 => ⟨sampleSupply, false, sampleRequest⟩
  | 1 => ⟨sampleSupply2, false, sampleRequest⟩
  | _ => ⟨sampleSupply2, false,
      { sampleRequest with postingId := "bal2", entries := sampleRequest.entries.take 1 }⟩

/-- Call `i` of these, with nothing failing. -/
def sampleCall (i : Nat) (w : World) :
    Option (Except PostError (PostingResponse × Bool) × World) :=
  runAlone (exec id i) (postPool plainDigest sampleSalt (sampleAgain i).sup (sampleAgain i).sink
    (sampleAgain i).req) w

def sampleReplayed : Except PostError (PostingResponse × Bool) × World :=
  (sampleCall 1 sampleFirst.2).get (by decide +kernel)

def sampleRefused : Except PostError (PostingResponse × Bool) × World :=
  (sampleCall 2 sampleReplayed.2).get (by decide +kernel)

theorem sampleAgain_answers : (∃ resp, sampleReplayed.1 = .ok (resp, true)) ∧
    ∃ e, sampleRefused.1 = .error e := by
  constructor
  · have hreplay : (sampleReplayed.1.toOption.map (·.2)) = some true := by decide +kernel
    cases hr : sampleReplayed.1 with
    | error e => rw [hr] at hreplay; cases hreplay
    | ok r =>
      rw [hr] at hreplay
      have hflag : r.2 = true := Option.some.inj hreplay
      exact ⟨r.1, by rw [← hflag]⟩
  · have hrefused : sampleRefused.1.toOption = none := by decide +kernel
    cases hr : sampleRefused.1 with
    | error e => exact ⟨e, rfl⟩
    | ok r => rw [hr] at hrefused; cases hrefused

theorem sampleAgain_sequential : Sequential plainDigest sampleSalt sampleAgain True id sampleTables
    (fun _ => .new) [sampleFirst.1, sampleReplayed.1, sampleRefused.1] sampleRefused.2 := by
  have hfirst : Sequential plainDigest sampleSalt sampleAgain True id sampleTables (fun _ => .new)
      [sampleFirst.1] sampleFirst.2 := .post .start (ran_runAlone (exec_clean True id 0) _ _ _)
  have hreplayed : Sequential plainDigest sampleSalt sampleAgain True id sampleTables
      (fun _ => .new) [sampleFirst.1, sampleReplayed.1] sampleReplayed.2 :=
    .post hfirst (ran_runAlone (exec_clean True id 1) _ _ _)
  exact .post hreplayed (ran_runAlone (exec_clean True id 2) _ _ _)

end LedgerAccounting
