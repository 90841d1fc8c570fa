/-
  File:      LedgerAccounting/Pool/Returns.lean
  Subject:   A call of `post` with a pool, run alone, returns: nothing in the tables keeps it
             waiting, and no constraint refuses its rows.

  * `insertEntries_returns`: the constraints admit the rows of a posting that is not there.
  * `postPool_returns`: a call whose identifiers are new has a run in which no statement fails.
-/
import LedgerAccounting.Pool.Sequential

namespace LedgerAccounting

open Script

/-! ## 1. Identifiers -/

/-- The first `n` identifiers the call draws are distinct, and no row of `entries` has one. -/
structure FreshIds (t : Tables) (sup : Supply) (n : Nat) : Prop where
  unused : ∀ k < n, ¬ t.HasEntry (sup.uuid k)
  distinct : ((List.range n).map sup.uuid).Nodup

section Returns

variable {clean : Prop} {replica : Nat → Nat} {i : Nat} {w v : World} {α : Type}

/-! ## 2. Statements -/

theorem query_returns {E : (o : Stmt) → World → Reply o → World → Prop} (context : String)
    {p : Script Stmt Reply (Except String α)} (h : Returns E p w) :
    Returns E (query context p).run w :=
  Returns.bind h fun _ _ _ => returns_ret _ _

theorem step_returns {E : (o : Stmt) → World → Reply o → World → Prop} {p : Script Stmt Reply α}
    (h : Returns E p w) : Returns E (step p).run w :=
  Returns.bind h fun _ _ _ => returns_ret _ _

theorem orRollback_returns {p : Db α} (h : Returns (ExecIf clean replica i) p.run w) :
    Returns (ExecIf clean replica i) (orRollback p).run w := by
  refine Returns.bind h fun x t _ => ?_
  cases x with
  | ok a => exact returns_ret _ _
  | error e =>
    have hroll : Returns (ExecIf clean replica i) (issue .rollback) t :=
      returns_perform ⟨(), t.discard i, rfl, fun _ hfails => hfails⟩
    exact Returns.bind hroll fun _ _ _ => returns_ret _ _

/-- A read that answers. -/
theorem read_returns {o : Stmt} {r : Reply o} {w' : World} (hexec : Exec replica i o w r w')
    (hok : ¬ Fails o r) : Returns (ExecIf clean replica i) (issue o) w :=
  returns_perform ⟨r, w', hexec, fun _ => hok⟩

theorem selectPosting_returns (context id : String) :
    Returns (ExecIf clean replica i) (query context (issue (.selectPosting id))).run w :=
  query_returns context (read_returns ⟨rfl, answers_ok rfl⟩ ok_not_error)

theorem checkActive_returns (p : ParsedEntry) :
    Returns (ExecIf clean replica i) (checkActiveDb p).run w := by
  refine Returns.ok_bind (query_returns _ (read_returns ⟨rfl, answers_ok rfl⟩ ok_not_error))
    fun found t _ => ?_
  cases found with
  | none => exact returns_ret _ _
  | some status =>
    by_cases hs : status ≠ "ACTIVE"
    · simp only [hs, ne_eq, not_false_eq_true, if_true]
      exact returns_ret _ _
    · simp only [hs, if_false]
      exact returns_ret _ _

theorem checkDirection_returns (p : ParsedEntry) :
    Returns (ExecIf clean replica i) (checkDirectionDb p).run w := by
  refine Returns.ok_bind (query_returns _ (read_returns ⟨rfl, answers_ok rfl⟩ ok_not_error))
    fun found t _ => ?_
  cases found with
  | none => exact returns_ret _ _
  | some typeName => exact returns_ret _ _

theorem checkActives_returns (parsed : List ParsedEntry) :
    Returns (ExecIf clean replica i) (parsed.forM checkActiveDb).run w :=
  returns_forM (fun p => ⟨checkActive_returns p, fun _ _ hran => (ran_checkActive hran).1⟩) parsed

theorem checkDirections_returns (parsed : List ParsedEntry) :
    Returns (ExecIf clean replica i) (parsed.forM checkDirectionDb).run w :=
  returns_forM
    (fun p => ⟨checkDirection_returns p, fun _ _ hran => (ran_checkDirection hran).1⟩) parsed

theorem replay_returns (id : String) (p : PostingRow) :
    Returns (ExecIf clean replica i) (replayFromDb id p).run w :=
  Returns.ok_bind
    (query_returns _ (read_returns ⟨rfl, answers_ok (bySequence_ordered _)⟩ ok_not_error))
    fun _ _ _ => returns_ret _ _

/-! ## 3. The transaction -/

/-- A call that runs alone shares the tables with its own transaction only. -/
theorem free_setTx (hv : v.txs = ∅) {t : Tables} {p : Tables → Prop} (hdb : ¬ p v.db) (ht : ¬ p t) :
    (v.setTx i t).Free p := by
  refine ⟨hdb, fun j u hj => ?_⟩
  unfold World.setTx at hj
  by_cases hji : j = i
  · subst hji
    rw [AList.lookup_insert] at hj
    cases hj
    exact ht
  · rw [AList.lookup_insert_ne hji, hv] at hj
    cases hj

theorem hasEntry_addEntry {t : Tables} {row : EntryRow} {id : String}
    (h : (t.addEntry row).HasEntry id) : t.HasEntry id ∨ row.entryId = id := by
  obtain ⟨row', hrow, hid⟩ := h
  rcases List.mem_append.mp hrow with hin | hin
  · exact Or.inl ⟨row', hin, hid⟩
  · rw [List.mem_singleton.mp hin] at hid
    exact Or.inr hid

/-- The constraints on the entry that a posting in the same transaction brings. -/
structure Admissible (db t : Tables) (e : EntryRecord) : Prop where
  unused : ¬ db.HasEntry e.entryId
  posting : t.HasPosting e.postingId
  account : db.HasAccount e.accountId
  positive : 0 < e.amount

/-- **The constraints admit entries with new identifiers**, one after another. -/
theorem insertEntries_returns (hv : v.txs = ∅) {entries : List EntryRecord} {k : Nat} {t : Tables}
    (hids : (entries.map (·.entryId)).Nodup) (hnew : ∀ e ∈ entries, ¬ t.HasEntry e.entryId)
    (hok : ∀ e ∈ entries, Admissible v.db t e) :
    Returns (ExecIf clean replica i) (insertEntries k entries).run (v.setTx i t) := by
  induction entries generalizing k t with
  | nil => exact returns_ret _ _
  | cons e rest ih =>
    rw [List.map_cons, List.nodup_cons] at hids
    rw [List.forall_mem_cons] at hnew hok
    have hadmits : (v.setTx i t).AdmitsEntry t
        { e with sequenceNumber := k + 1 : EntryRecord }.row :=
      ⟨free_setTx hv hok.1.unused hnew.1, Or.inr hok.1.posting, hok.1.account, hok.1.positive⟩
    refine Returns.ok_bind (query_returns _ (read_returns
      (Or.inr ⟨t, lookup_setTx v t, rfl, hadmits, rfl⟩) ok_not_error)) fun _ s hq => ?_
    rcases ran_insertEntry hq with ⟨_, rfl⟩ | ⟨_, ⟨_, herr⟩, _⟩
    · refine Returns.ok_bind (ih hids.2 (fun e' he' hhas => ?_) fun e' he' => ?_)
        fun _ _ _ => returns_ret _ _
      · rcases hasEntry_addEntry hhas with hin | heq
        · exact hnew.2 e' he' hin
        · exact hids.1 (List.mem_map.mpr ⟨e', he', heq.symm⟩)
      · obtain ⟨hunused, hposting, haccount, hpositive⟩ := hok.2 e' he'
        exact ⟨hunused, hposting, haccount, hpositive⟩
    · cases herr

theorem insertAnchor_returns (hv : v.txs = ∅) (context : String) {row : AnchorRow} {t : Tables}
    (hposting : t.HasPosting row.postingId) :
    Returns (ExecIf clean replica i) (query context (issue (.insertAnchor row))).run
      (v.setTx i t) := by
  by_cases hhas : v.db.HasAnchor row.postingId ∨ t.HasAnchor row.postingId
  · exact query_returns _ (read_returns (Or.inr ⟨t, lookup_setTx v t, rfl, Or.inr hposting,
      Or.inl ⟨hhas, rfl⟩⟩) ok_not_error)
  · push Not at hhas
    exact query_returns _ (read_returns (Or.inr ⟨t, lookup_setTx v t, rfl, Or.inr hposting,
      Or.inr ⟨free_setTx hv hhas.1 hhas.2, rfl⟩⟩) ok_not_error)

/-- The transaction of a posting that is not there can be filled. -/
theorem insertPosting_returns (hv : v.txs = ∅) {call : PoolCall} {l : HashLoop}
    (hlacks : ¬ v.db.HasPosting call.req.postingId)
    (hids : (l.createdEntries.map (·.entryId)).Nodup)
    (hok : ∀ e ∈ l.createdEntries, ∀ t : Tables, t.HasPosting call.req.postingId →
      Admissible v.db t e) :
    Returns (ExecIf clean replica i) (insertPosting call.req (call.sup.nowIso 0) l).run
      (v.setTx i .empty) := by
  have hnone : ¬ Tables.empty.HasPosting call.req.postingId := by
    rintro ⟨_, hrow, _⟩
    exact absurd hrow List.not_mem_nil
  let row := postingRow call.req (call.sup.nowIso 0) l.prevHash
  have hposting : (Tables.empty.addPosting row).HasPosting call.req.postingId :=
    ⟨row, List.mem_singleton_self row, rfl⟩
  refine Returns.ok_bind (query_returns _ (read_returns (Or.inr ⟨.empty, lookup_setTx v _,
    Or.inr ⟨rfl, free_setTx hv hlacks hnone, rfl⟩⟩) ok_not_error)) fun rows s hq => ?_
  have hrow : ¬ v.db.HasPosting row.postingId := hlacks
  rcases ran_insertRow hrow hq with ⟨hone, rfl⟩ | ⟨_, ⟨_, herr⟩, _⟩
  case inr => cases herr
  cases hone
  simp only [one_ne_zero, if_false]
  refine Returns.ok_bind (query_returns _ (read_returns ⟨rfl, answers_ok rfl⟩ ok_not_error))
    fun m s hmax => ?_
  obtain ⟨rfl, _⟩ := ran_read (P := fun _ => True) (fun _ _ hx => ⟨⟨(ran_perform_iff.mp hx).1.1,
    fun _ _ => trivial⟩, (ran_perform_iff.mp hx).2⟩) hmax
  refine Returns.ok_bind (insertEntries_returns hv hids (fun _ _ hhas => ?_)
    fun e he => hok e he _ hposting) fun a s hentries => ?_
  · obtain ⟨_, hrow, _⟩ := hhas
    exact absurd hrow List.not_mem_nil
  rcases ran_insertEntries hentries with ⟨_, rfl⟩ | ⟨_, ⟨_, herr⟩, _⟩
  case inr => cases herr
  exact Returns.ok_bind (insertAnchor_returns hv _ hposting) fun _ _ _ => returns_ret _ _

/-! ## 4. The call -/

/-- Numbering changes the numbers only. -/
theorem numberFrom_map {β : Type} (f : EntryRecord → β)
    (hf : ∀ e k, f { e with sequenceNumber := k } = f e) (m : Nat) (l : List EntryRecord) :
    (numberFrom m l).map f = l.map f := by
  induction l generalizing m with
  | nil => rfl
  | cons e l ih => rw [numberFrom, List.map_cons, List.map_cons, hf, ih]

section Call

variable {digest : ByteArray → String} {salt : String} {call : PoolCall} {parsed : List ParsedEntry}
  {h : String}

/-- The hashed entries carry the identifiers of the call, in the order they were drawn. -/
theorem callLoop_ids : (callLoop digest salt call parsed h).createdEntries.map (·.entryId) =
    (List.range parsed.length).map call.sup.uuid := by
  obtain ⟨_, _, hentries, _⟩ := hashEntries_numbersTo digest salt call 0 h parsed
  have hspec : LoopSpec digest salt (call.sup.nowIso 0) call.req.postingId 0 h call.sup parsed
      (memoryLoop digest salt call 0 h parsed) := memoryLoop_spec
  rw [← hspec.fresh, hspec.entryIds, ← hentries]
  exact (numberFrom_map _ (fun _ _ => rfl) 0 _).symm

/-- A hashed entry books a parsed entry under the posting of the call. -/
theorem callLoop_books {e : EntryRecord}
    (he : e ∈ (callLoop digest salt call parsed h).createdEntries) :
    e.postingId = call.req.postingId ∧ ∃ p ∈ parsed, e.accountId = p.accountId ∧
      e.amount = p.amount := by
  obtain ⟨_, _, hentries, _⟩ := hashEntries_numbersTo digest salt call 0 h parsed
  let f : EntryRecord → String × String × Nat := fun e => (e.postingId, e.accountId, e.amount)
  have hmem : f e ∈ (memoryLoop digest salt call 0 h parsed).createdEntries.map f := by
    rw [← hentries, numberFrom_map f (fun _ _ => rfl)]
    exact List.mem_map_of_mem he
  obtain ⟨e', he', hfe⟩ := List.mem_map.mp hmem
  obtain ⟨p, hp, _, _, _, rfl⟩ := Runs.forall₂_mem_right memoryLoop_spec.made he'
  simp only [f, makeEntry, Prod.mk.injEq] at hfe
  exact ⟨hfe.1.symm, p, hp, hfe.2.1.symm, hfe.2.2.symm⟩

theorem checkRows_account {t : Tables} (hok : checkRows t parsed = .ok ()) :
    ∀ p ∈ parsed, t.HasAccount p.accountId := by
  intro p hp
  obtain ⟨_, hactive, _⟩ := (Runs.bind_ok_iff ..).mp hok
  have hrow := Runs.forM_ok_iff.mp hactive p hp
  unfold checkActiveRow at hrow
  cases hfound : t.account p.accountId with
  | none =>
    rw [hfound] at hrow
    cases hrow
  | some row =>
    have hid := List.find?_some hfound
    exact ⟨row, List.mem_of_find?_eq_some hfound, by simpa using hid⟩

theorem cache_returns (f : LedgerState → LedgerState) :
    Returns (ExecIf clean replica i) (step (issue (.cache f))).run w :=
  step_returns (returns_perform ⟨(), _, rfl, fun _ hfails => hfails⟩)

theorem emitTo_returns (sink : Bool) (event : AuditEvent) :
    Returns (ExecIf clean replica i) (emitTo sink event).run w := by
  cases sink with
  | false => exact returns_ret _ _
  | true => exact step_returns (returns_perform ⟨(), _, rfl, fun _ hfails => hfails⟩)

/-- The part after the checks returns. -/
theorem postFresh_returns (hw : w.txs = ∅) (hvalid : validateRequest call.sup call.req = .ok parsed)
    (hlacks : ¬ w.db.HasPosting call.req.postingId) (haccounts : checkRows w.db parsed = .ok ())
    (hids : FreshIds w.db call.sup parsed.length) :
    Returns (ExecIf clean replica i)
      (postFresh digest salt call.sup call.sink call.req parsed).run w := by
  have hread : Returns (ExecIf clean replica i) lastEntryHash w := by
    refine Returns.bind (read_returns ⟨rfl, answers_ok (getLast_isLastHash _)⟩ ok_not_error)
      fun _ _ _ => returns_ret _ _
  refine Returns.ok_bind (step_returns hread) fun g v hq => ?_
  obtain ⟨rd, _, _, hg, rfl⟩ := ran_lastEntryHash hq
  cases hg
  have hv : (w.readLastHash i rd).txs = ∅ := hw
  refine Returns.ok_bind (query_returns _ (read_returns (Or.inr ⟨rfl, rfl⟩) ok_not_error))
    fun _ v hbegin => ?_
  rcases ran_begin hbegin with ⟨_, rfl⟩ | ⟨_, ⟨_, herr⟩, _⟩
  case inr => cases herr
  have hvlacks : ¬ (w.readLastHash i rd).db.HasPosting call.req.postingId := hlacks
  have hdistinct : ((callLoop digest salt call parsed (startHash rd)).createdEntries.map
      (·.entryId)).Nodup := by
    rw [callLoop_ids]
    exact hids.distinct
  have hadmissible : ∀ e ∈ (callLoop digest salt call parsed (startHash rd)).createdEntries,
      ∀ t : Tables, t.HasPosting call.req.postingId →
        Admissible (w.readLastHash i rd).db t e := by
    intro e he t ht
    obtain ⟨hposting, p, hp, haccount, hamount⟩ := callLoop_books he
    have hid := List.mem_map_of_mem (f := (·.entryId)) he
    rw [callLoop_ids] at hid
    obtain ⟨k, hk, hke⟩ := List.mem_map.mp hid
    refine ⟨?_, ?_, ?_, ?_⟩
    · rw [← hke]
      exact hids.unused k (List.mem_range.mp hk)
    · rw [hposting]
      exact ht
    · rw [haccount]
      exact checkRows_account haccounts p hp
    · rw [hamount]
      exact (((validateRequest_ok_iff _ _ _).mp hvalid).amount p hp).1
  refine Returns.ok_bind (orRollback_returns (insertPosting_returns hv hvlacks hdistinct
    hadmissible)) fun found v hins => ?_
  rcases ran_orRollback hins with ⟨a, hran, hok⟩ | ⟨_, _, _, herr, _⟩
  case inr => cases herr
  cases hok
  rcases ran_insertPosting hvlacks hran with ⟨hok, rfl⟩ | ⟨_, ⟨_, herr⟩, _⟩
  case inr => cases herr
  cases hok
  refine Returns.ok_bind (query_returns _ (read_returns (r := .ok ())
    (Or.inr ⟨_, lookup_setTx _ _, rfl⟩) ok_not_error)) fun _ _ _ => ?_
  refine Returns.ok_bind (cache_returns _) fun _ _ _ => ?_
  refine Returns.ok_bind (cache_returns _) fun _ _ _ => ?_
  exact Returns.ok_bind (emitTo_returns _ _) fun _ _ _ => returns_ret _ _

/-- **A call returns, when it runs alone and its identifiers are new.** -/
theorem postPool_returns (hw : w.txs = ∅)
    (hids : FreshIds w.db call.sup call.req.entries.length) :
    Returns (ExecIf clean replica i) (postPool digest salt call.sup call.sink call.req) w := by
  unfold postPool
  cases hvalid : validateRequest call.sup call.req with
  | error e => exact returns_ret _ _
  | ok parsed =>
    refine Returns.ok_bind (selectPosting_returns _ _) fun found v hq => ?_
    obtain ⟨rfl, ⟨_, hok, hfound⟩ | ⟨_, _, herr⟩⟩ := ran_selectPosting hq
    case inr => cases herr
    cases hok
    cases found with
    | some row => exact replay_returns _ _
    | none =>
      have hlacks := not_hasPosting_of_find hfound.symm
      have hlen := ((validateRequest_ok_iff _ _ _).mp hvalid).parses.length_eq
      rw [hlen] at hids
      refine Returns.ok_bind (checkActives_returns parsed) fun _ u hactive => ?_
      obtain ⟨rfl, hactive | ⟨_, _, herr⟩⟩ :=
        ran_forM_reads (fun _ _ _ => ran_checkActive) hactive
      case inr => cases herr
      refine Returns.ok_bind (checkDirections_returns parsed) fun _ u hdirection => ?_
      obtain ⟨rfl, hdirection | ⟨_, _, herr⟩⟩ :=
        ran_forM_reads (fun _ _ _ => ran_checkDirection) hdirection
      case inr => cases herr
      refine postFresh_returns hw hvalid hlacks ?_ hids
      unfold checkRows
      rw [← hactive, ← hdirection]
      rfl

end Call

end Returns

end LedgerAccounting
