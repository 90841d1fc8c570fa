/-
  File:      LedgerAccounting/Pool/PostSpec.lean
  Subject:   `post` with a pool, proved against every environment: what a session knows after each
             statement, whatever the other sessions do in between.

  * `replayFromDb_spec`: a replay answers what the committed posting says.
  * `insertPosting_spec`: the rows of a fresh posting before its commit.
  * `postPool_spec`: a call that returns `Ok` answers for one committed transaction.
-/
import LedgerAccounting.Pool.Commits

namespace LedgerAccounting

open Script

variable (digest : ByteArray → String) (salt : String) (calls : Nat → PoolCall)
  (replica : Nat → Nat) (i : Nat)

/-! ## 1. Scripts of one session -/

/-- A script of session `i` among the given calls: it keeps the invariant, and what it returns
    meets `Q`. -/
abbrev Session {α : Type} (P : World → Prop) (p : Db α) (Q : α → World → Prop) : Prop :=
  TripleOk (Rely i) (PoolInv digest salt calls) (Exec replica i) P p Q

/-- The same for a script without errors of its own. -/
abbrev Steps {α : Type} (P : World → Prop) (p : Script Stmt Reply α) (Q : α → World → Prop) :
    Prop :=
  Triple (Rely i) (PoolInv digest salt calls) (Exec replica i) P p Q

variable {digest salt calls replica i} {α : Type} {P : World → Prop} {Q : α → World → Prop}

theorem Stable.answers (hQ : ∀ a, Stable (Rely i) (Q a)) (r : Except String α) :
    Stable (Rely i) fun w => Answers r fun a => Q a w :=
  fun w w' h hR a ha => hQ a w w' (h a ha) hR

theorem query_spec (context : String) {p : Script Stmt Reply (Except String α)}
    (hQ : ∀ a, Stable (Rely i) (Q a))
    (h : Steps digest salt calls replica i P p fun r w => Answers r fun a => Q a w) :
    Session digest salt calls replica i P (query context p) Q := by
  refine Triple.bind (Rely.refl i) h fun r => Triple.ret _ fun w w' hw hR a ha => ?_
  cases r with
  | error e => cases ha
  | ok b =>
    cases ha
    exact hQ a w w' (hw a rfl) hR

theorem step_spec {p : Script Stmt Reply α} (hQ : ∀ a, Stable (Rely i) (Q a))
    (h : Steps digest salt calls replica i P p Q) :
    Session digest salt calls replica i P (step p) Q := by
  refine Triple.bind (Rely.refl i) h fun a => Triple.ret _ fun w w' hw hR b hb => ?_
  cases hb
  exact hQ a w w' hw hR

/-- A statement that is no commit: what is known after it. -/
theorem statement_spec {o : Stmt} {K : Reply o → World → Prop} (hP : Stable (Rely i) P)
    (ho : o ≠ .commit) (hK : ∀ r, Stable (Rely i) (K r))
    (h : ∀ w r w', P w → Exec replica i o w r w' → K r w') :
    Steps digest salt calls replica i P (issue o) K :=
  Triple.perform hP (fun w r w' hw hI he => ⟨exec_poolInv he ho hI, h w r w' hw he⟩) hK

/-- A statement that reads: what it answers about the world it finds. -/
theorem read_spec {o : Stmt} {K : Reply o → World → Prop} (hP : Stable (Rely i) P)
    (ho : ∀ w r w', Exec replica i o w r w' → w' = w) (hK : ∀ r, Stable (Rely i) (K r))
    (h : ∀ w r, P w → PoolInv digest salt calls w → Exec replica i o w r w → K r w) :
    Steps digest salt calls replica i P (issue o) K := by
  refine Triple.perform hP (fun w r w' hw hI he => ?_) hK
  obtain rfl := ho w r w' he
  exact ⟨hI, h w' r hw hI he⟩

/-- A read whose answer need not be known. -/
theorem peek_spec {o : Stmt} (ho : ∀ w r w', Exec replica i o w r w' → w' = w) :
    Steps digest salt calls replica i (fun _ => True) (issue o) fun _ _ => True :=
  read_spec (Stable.const True) ho (fun _ => Stable.const True) fun _ _ _ _ _ => trivial

theorem look_spec (context : String) {p : Script Stmt Reply (Except String α)}
    (h : Steps digest salt calls replica i (fun _ => True) p fun _ _ => True) :
    Session digest salt calls replica i (fun _ => True) (query context p) fun _ _ => True :=
  query_spec context (fun _ => Stable.const True) (h.imp (fun _ h => h) fun _ _ _ _ _ => trivial)

theorem rollback_spec : Steps digest salt calls replica i (fun _ => True) (issue .rollback)
    fun _ _ => True :=
  statement_spec (Stable.const True) (by simp) (fun _ => Stable.const True)
    fun _ _ _ _ _ => trivial

theorem orRollback_spec {p : Db α} (hQ : ∀ a, Stable (Rely i) (Q a))
    (h : Session digest salt calls replica i P p Q) :
    Session digest salt calls replica i P (orRollback p) Q := by
  refine Triple.bind (Rely.refl i) h fun r => ?_
  cases r with
  | ok a =>
    refine Triple.ret _ fun w w' hw hR b hb => ?_
    cases hb
    exact hQ a w w' (hw a rfl) hR
  | error e =>
    refine Triple.bind (Rely.refl i) (rollback_spec.imp (fun _ _ => trivial) fun _ _ h => h)
      fun _ => Triple.ret _ fun w w' _ _ b hb => ?_
    cases hb

/-! ## 2. What stays true while others work -/

/-- A committed transaction stays. -/
theorem stable_committed (p : Commit → Prop) : Stable (Rely i) fun w => ∃ c ∈ w.log, p c := by
  intro w w' h hR
  obtain ⟨c, hc, hp⟩ := h
  exact ⟨c, hR.log.subset hc, hp⟩

/-- A committed row stays. -/
theorem stable_row (row : PostingRow) : Stable (Rely i) fun w => row ∈ w.db.postings := by
  intro w w' h hR
  obtain ⟨rest, hrest⟩ := hR.log
  unfold World.db at h ⊢
  rw [tablesAfter_postings] at h ⊢
  rw [hR.base, ← hrest, List.flatMap_append, ← List.append_assoc]
  exact List.mem_append_left _ h

/-- The session took `h` from its read of the last hash. -/
def TookHead (i : Nat) (h : String) (w : World) : Prop :=
  HeadRead w (w.lastHashRead i) w.log.length h

/-- ... and its first sequence number from what was committed then or later. -/
def TookNumber (i m : Nat) (w : World) : Prop :=
  NumberRead w (w.lastHashRead i) w.log.length m

theorem stable_head (h : String) : Stable (Rely i) (TookHead i h) := by
  intro w w' hw hR
  unfold TookHead
  rw [hR.read]
  exact HeadRead.grows hw hR.base hR.log le_rfl hR.log.length_le

theorem stable_number (m : Nat) : Stable (Rely i) (TookNumber i m) := by
  intro w w' hw hR
  unfold TookNumber
  rw [hR.read]
  exact NumberRead.grows hw hR.base hR.log le_rfl hR.log.length_le

theorem stable_tx (t : Tables) : Stable (Rely i) fun w => w.txs.lookup i = some t :=
  fun _ _ hw hR => hR.tx.trans hw

/-! ## 3. Replays -/

/-- A session that returned `a` answers for one committed transaction, and with `replay = false`
    for its own. The posting was not there before the calls. -/
def Answered (i : Nat) (id : String) (a : PostingResponse × Bool) (w : World) : Prop :=
  w.base.Lacks id → ∃ c ∈ w.log, c.tables.HasPosting id ∧ c.tables.response = some a.1 ∧
    (a.2 = false → c.session = i)

/-- A row of `postings` that was not there before the calls is that of a transaction. -/
theorem committed_row {w : World} (hI : PoolInv digest salt calls w) {row : PostingRow}
    (hrow : row ∈ w.db.postings) (hlacks : w.base.Lacks row.postingId) :
    ∃ c ∈ w.log, c.tables.HasPosting row.postingId ∧ c.tables.postings = [row] := by
  unfold World.db at hrow
  rw [tablesAfter_postings] at hrow
  rcases List.mem_append.mp hrow with hbase | hlog
  · exact absurd ⟨row, hbase, rfl⟩ hlacks.posting
  · obtain ⟨c, hc, hcrow⟩ := List.mem_flatMap.mp hlog
    obtain ⟨_, _, _, hb⟩ := hI.booked hc
    have hcp := hb.postings
    rw [hcp] at hcrow
    rw [← List.mem_singleton.mp hcrow] at hcp
    exact ⟨c, hc, ⟨row, by rw [hcp]; exact List.mem_singleton_self row, rfl⟩, hcp⟩

/-- What the two reads of a replay have found. -/
def FoundRows (row : PostingRow) (entries : List EntryRow) (w : World) : Prop :=
  w.base.Lacks row.postingId → ∃ c ∈ w.log, c.tables.HasPosting row.postingId ∧
    c.tables.postings = [row] ∧ c.tables.entries = entries

theorem stable_foundRows (row : PostingRow) (entries : List EntryRow) :
    Stable (Rely i) (FoundRows row entries) := by
  intro w w' h hR hlacks
  rw [hR.base] at hlacks
  exact stable_committed _ w w' (h hlacks) hR

theorem replayFromDb_spec (row : PostingRow) :
    Session digest salt calls replica i (fun w => row ∈ w.db.postings)
      (replayFromDb row.postingId row) fun a w => Answered i row.postingId a w := by
  refine TripleOk.bind (Rely.refl i) (query_spec _ (fun entries => stable_foundRows row entries)
    (read_spec (stable_row row) (fun w r w' he => he.1)
      (fun r => Stable.answers (fun entries => stable_foundRows row entries) r) ?_)) ?_
  · intro w r hrow hI he entries hr hlacks
    obtain ⟨c, hc, hid, hcp⟩ := committed_row hI hrow hlacks
    obtain ⟨_, _, _, hb⟩ := hI.booked hc
    have hordered := he.2 entries hr
    rw [entriesOf_committed hI hlacks hc hid] at hordered
    exact ⟨c, hc, hid, hcp, (ordered_unique hordered hb.increasing).symm⟩
  · intro entries
    refine TripleOk.pure _ fun w w' h hR hlacks => ?_
    obtain ⟨c, hc, hid, hcp, hce⟩ := stable_foundRows row entries w w' h hR hlacks
    refine ⟨c, hc, hid, ?_, fun hfalse => by cases hfalse⟩
    unfold Tables.response
    rw [hcp, hce]
    rfl

/-- A read of a posting finds a committed row of it. -/
def FoundPosting (id : String) (found : Option PostingRow) (w : World) : Prop :=
  ∀ row, found = some row → row.postingId = id ∧ row ∈ w.db.postings

theorem stable_foundPosting (id : String) (found : Option PostingRow) :
    Stable (Rely i) (FoundPosting id found) := by
  intro w w' h hR row hrow
  obtain ⟨hid, hmem⟩ := h row hrow
  exact ⟨hid, stable_row row w w' hmem hR⟩

theorem selectPosting_spec (context : String) (id : String) :
    Session digest salt calls replica i (fun _ => True)
      (query context (issue (.selectPosting id))) (FoundPosting id) := by
  refine query_spec _ (stable_foundPosting id) (read_spec (Stable.const True)
    (fun w r w' he => he.1) (fun r => Stable.answers (stable_foundPosting id) r) ?_)
  intro w r _ _ he found hr row hrow
  have hfind := he.2 found hr
  rw [hrow] at hfind
  have hid := List.find?_some hfind.symm
  exact ⟨by simpa using hid, List.mem_of_find?_eq_some hfind.symm⟩

/-- Both ways a call answers from the tables. -/
theorem replayFound_spec (id : String) (row : PostingRow) (found : Option PostingRow)
    (hfound : found = some row) :
    Session digest salt calls replica i (FoundPosting id found) (replayFromDb id row)
      fun a w => Answered i id a w := by
  intro w hw
  obtain ⟨hid, hrow⟩ := hw row hfound
  subst hid
  exact replayFromDb_spec row w hrow

theorem fetchExisting_spec (id : String) :
    Session digest salt calls replica i (fun _ => True) (fetchExisting id)
      fun row => FoundPosting id (some row) := by
  refine TripleOk.bind (Rely.refl i) (selectPosting_spec _ id) fun found => ?_
  cases found with
  | none => exact TripleOk.throw _
  | some row => exact TripleOk.pure _ fun w w' h hR => stable_foundPosting id _ w w' h hR

/-! ## 4. The checks on the accounts -/

theorem checkActiveDb_spec (p : ParsedEntry) :
    Session digest salt calls replica i (fun _ => True) (checkActiveDb p) fun _ _ => True := by
  refine TripleOk.bind (Rely.refl i) (look_spec _ (peek_spec fun w r w' he => he.1)) ?_
  intro found
  cases found with
  | none => exact TripleOk.throw _
  | some status =>
    by_cases hs : status ≠ "ACTIVE"
    · simp only [hs, ne_eq, not_false_eq_true, if_true]
      exact TripleOk.throw _
    · simp only [hs, if_false]
      exact TripleOk.pure _ fun _ _ _ _ => trivial

theorem checkDirectionDb_spec (p : ParsedEntry) :
    Session digest salt calls replica i (fun _ => True) (checkDirectionDb p) fun _ _ => True := by
  refine TripleOk.bind (Rely.refl i) (look_spec _ (peek_spec fun w r w' he => he.1)) ?_
  intro found
  cases found with
  | none => exact TripleOk.throw _
  | some typeName => exact Triple.ret _ fun _ _ _ _ _ _ => trivial

/-! ## 5. The transaction -/

theorem lastEntryHash_spec :
    Steps digest salt calls replica i (fun _ => True) lastEntryHash (TookHead i) := by
  have hread : Steps digest salt calls replica i (fun _ => True) (issue .selectLastHash)
      fun r w => TookHead i ((foundHash r).getD genesisHash) w := by
    refine statement_spec (Stable.const True) (by simp) (fun r => stable_head _)
      fun w r w' _ he => ?_
    obtain ⟨rfl, hr⟩ := he
    refine ⟨_, readLastHash_self w i r, le_rfl, rfl, ?_⟩
    cases r with
    | error e => exact Or.inl rfl
    | ok found =>
      have hlast := hr found rfl
      rw [← dbAt_length] at hlast
      exact Or.inr hlast
  refine Triple.bind (Rely.refl i) hread fun r => ?_
  exact Triple.ret _ fun w w' hw hR => stable_head _ w w' hw hR

/-- The open transaction of the session holds the rows `t`; its hashes start from `h`. -/
def Opened (i : Nat) (h : String) (t : Tables) (w : World) : Prop :=
  TookHead i h w ∧ w.txs.lookup i = some t

/-- ... and it is numbered from `m`. -/
def Numbered (i : Nat) (h : String) (m : Nat) (t : Tables) (w : World) : Prop :=
  TookNumber i m w ∧ Opened i h t w

theorem stable_opened (h : String) (t : Tables) : Stable (Rely i) (Opened i h t) :=
  Stable.and (stable_head h) (stable_tx t)

theorem stable_numbered (h : String) (m : Nat) (t : Tables) : Stable (Rely i) (Numbered i h m t) :=
  Stable.and (stable_number m) (stable_opened h t)

theorem lookup_setTx (w : World) (t : Tables) : (w.setTx i t).txs.lookup i = some t :=
  AList.lookup_insert _

theorem begin_spec (context : String) (h : String) :
    Session digest salt calls replica i (TookHead i h) (query context (issue .begin))
      fun _ => Opened i h .empty := by
  refine query_spec _ (fun _ => stable_opened h _) (statement_spec (stable_head h) (by simp)
    (Stable.answers fun _ => stable_opened h _) fun w r w' hw he a ha => ?_)
  rcases he with ⟨e, hr, _⟩ | ⟨_, rfl⟩
  · rw [hr] at ha
    cases ha
  · exact ⟨hw, lookup_setTx w _⟩

/-- The entries of the transaction, one by one. -/
theorem insertEntries_spec (h : String) (m : Nat) (entries : List EntryRecord) (k : Nat)
    (t : Tables) :
    Session digest salt calls replica i (Numbered i h m t) (insertEntries k entries) fun a w =>
      a = (k + entries.length, numberFrom k entries) ∧
        Numbered i h m { t with entries := t.entries ++ (numberFrom k entries).map (·.row) } w := by
  induction entries generalizing k t with
  | nil =>
    refine TripleOk.pure _ fun w w' hw hR => ⟨rfl, ?_⟩
    simpa [numberFrom] using stable_numbered h m t w w' hw hR
  | cons e rest ih =>
    let e' : EntryRecord := { e with sequenceNumber := k + 1 }
    have hinsert : Session digest salt calls replica i (Numbered i h m t)
        (query "post: insert entry" (issue (.insertEntry e'.row)))
        fun _ => Numbered i h m (t.addEntry e'.row) := by
      refine query_spec _ (fun _ => stable_numbered h m _)
        (statement_spec (stable_numbered h m t) (by simp)
          (Stable.answers fun _ => stable_numbered h m _) fun w r w' hw he a ha => ?_)
      rcases he with ⟨e, hr, _⟩ | ⟨u, hu, _, _, rfl⟩
      · rw [hr] at ha
        cases ha
      · have hut : u = t := Option.some.inj (hu.symm.trans hw.2.2)
        subst hut
        exact ⟨hw.1, hw.2.1, lookup_setTx w _⟩
    refine TripleOk.bind (Rely.refl i) hinsert fun _ => ?_
    refine TripleOk.bind (Rely.refl i) (ih (k + 1) (t.addEntry e'.row)) fun a => ?_
    refine TripleOk.pure _ fun w w' hw hR => ?_
    obtain ⟨rfl, hnum⟩ := hw
    refine ⟨?_, ?_⟩
    · rw [numberFrom, List.length_cons]
      congr 1
      omega
    · have hstay := stable_numbered h m _ w w' hnum hR
      simpa [numberFrom, Tables.addEntry] using hstay

theorem insertRow_spec (context h : String) (row : PostingRow) :
    Session digest salt calls replica i (Opened i h .empty)
      (query context (issue (.insertPosting row)))
      fun rows w => rows ≠ 0 → Opened i h (Tables.empty.addPosting row) w := by
  have hstable : ∀ rows : Nat, Stable (Rely i) fun w =>
      rows ≠ 0 → Opened i h (Tables.empty.addPosting row) w :=
    fun _ w w' hw hR hne => stable_opened h _ w w' (hw hne) hR
  refine query_spec _ hstable (statement_spec (stable_opened h _) (by simp)
    (Stable.answers hstable) fun w r w' hw he rows hr hne => ?_)
  rcases he with ⟨e, he, _⟩ | ⟨t, ht, ⟨he, _, _⟩ | ⟨_, _, rfl⟩⟩
  · rw [he] at hr
    cases hr
  · rw [he] at hr
    cases hr
    exact absurd rfl hne
  · have hte : t = .empty := Option.some.inj (ht.symm.trans hw.2)
    rw [hte]
    exact ⟨hw.1, lookup_setTx w _⟩

theorem selectMaxSequence_spec (context h : String) (t : Tables) :
    Session digest salt calls replica i (Opened i h t)
      (query context (issue .selectMaxSequence)) fun m => Numbered i h m t := by
  refine query_spec _ (fun m => stable_numbered h m t) (read_spec (stable_opened h t)
    (fun w r w' he => he.1) (Stable.answers fun m => stable_numbered h m t) ?_)
  intro w r hw hI he m hr
  obtain ⟨read, hread, hle, _⟩ := hw.1
  refine ⟨⟨read, w.log.length, hread, hle, le_rfl, ?_⟩, hw⟩
  rw [dbAt_length]
  exact he.2 m hr

/-- The open transaction holds the posting and the entries, and possibly an anchor. -/
def Filled (i : Nat) (h : String) (m : Nat) (t : Tables) (w : World) : Prop :=
  ∃ anchors, Numbered i h m { t with hashChain := anchors } w

theorem stable_filled (h : String) (m : Nat) (t : Tables) : Stable (Rely i) (Filled i h m t) := by
  intro w w' hw hR
  obtain ⟨anchors, hnum⟩ := hw
  exact ⟨anchors, stable_numbered h m _ w w' hnum hR⟩

theorem insertAnchor_spec (context h : String) (m : Nat) (t : Tables) (row : AnchorRow) :
    Session digest salt calls replica i (Numbered i h m t)
      (query context (issue (.insertAnchor row))) fun _ => Filled i h m t := by
  refine query_spec _ (fun _ => stable_filled h m t)
    (statement_spec (stable_numbered h m t) (by simp) (Stable.answers fun _ => stable_filled h m t)
      fun w r w' hw he a ha => ?_)
  rcases he with ⟨e, hr, _⟩ | ⟨u, hu, _, _, ⟨_, rfl⟩ | ⟨_, rfl⟩⟩
  · rw [hr] at ha
    cases ha
  · exact ⟨t.hashChain, hw⟩
  · have hut : u = t := Option.some.inj (hu.symm.trans hw.2.2)
    subst hut
    exact ⟨u.hashChain ++ [row], hw.1, hw.2.1, lookup_setTx w _⟩

/-- The rows of the transaction of a posting whose entries were hashed by `l`. -/
def filledRows (call : PoolCall) (l : HashLoop) (m : Nat) : Tables where
  accounts := []
  postings := [postingRow call.req (call.sup.nowIso 0) l.prevHash]
  entries := (numberFrom m l.createdEntries).map (·.row)
  hashChain := []

/-- **The rows of a fresh posting stand in the transaction before its commit.** -/
theorem insertPosting_spec (call : PoolCall) (h : String) (l : HashLoop) :
    Session digest salt calls replica i (Opened i h .empty)
      (insertPosting call.req (call.sup.nowIso 0) l)
      fun a w => ∀ last created, a = some (last, created) → ∃ m,
        last = m + l.createdEntries.length ∧ created = numberFrom m l.createdEntries ∧
          Filled i h m (filledRows call l m) w := by
  refine TripleOk.bind (Rely.refl i) (insertRow_spec _ h _) fun rows => ?_
  by_cases hrows : rows = 0
  · simp only [hrows, if_true]
    exact TripleOk.pure _ fun w w' _ _ last created hsome => by cases hsome
  · simp only [hrows, if_false]
    refine TripleOk.bind (Rely.refl i) ((selectMaxSequence_spec _ h _).imp
      (fun w hw => hw hrows) fun _ _ hw => hw) fun m => ?_
    refine TripleOk.bind (Rely.refl i) (insertEntries_spec h m l.createdEntries m _) fun a => ?_
    refine TripleOk.bind (Rely.refl i) (M := fun _ w =>
      a = (m + l.createdEntries.length, numberFrom m l.createdEntries) ∧
        Filled i h m (filledRows call l m) w) ?_ fun _ => ?_
    · intro w hw
      obtain ⟨ha, hnum⟩ := hw
      refine Holds.imp (fun r w hr b hb => ⟨ha, ?_⟩) (insertAnchor_spec _ h m _ _ w hnum)
      exact hr b hb
    · refine TripleOk.pure _ fun w w' hw hR last created hsome => ?_
      obtain ⟨ha, hfilled⟩ := hw
      rw [ha] at hsome
      cases hsome
      exact ⟨m, rfl, rfl, stable_filled h m _ w w' hfilled hR⟩

/-! ## 6. The commit and the answer -/

theorem filledRows_booked (call : PoolCall) (parsed : List ParsedEntry) (m : Nat) (h : String)
    (anchors : List AnchorRow) : Booked digest salt call parsed m h
      { filledRows call (hashEntries digest salt call.sup (call.sup.nowIso 0) call.req.postingId h
          parsed) m with hashChain := anchors } := by
  obtain ⟨hprev, _, hentries, _⟩ := hashEntries_numbersTo digest salt call m h parsed
  refine ⟨?_, ?_⟩
  · unfold filledRows
    simp only [hprev]
  · unfold filledRows
    simp only [hentries]

/-- The transaction of the session is committed. -/
def Recorded (digest : ByteArray → String) (salt : String) (i : Nat) (call : PoolCall)
    (parsed : List ParsedEntry) (m : Nat) (h : String) (w : World) : Prop :=
  ∃ c ∈ w.log, c.session = i ∧ Booked digest salt call parsed m h c.tables

theorem stable_recorded (call : PoolCall) (parsed : List ParsedEntry) (m : Nat) (h : String) :
    Stable (Rely i) (Recorded digest salt i call parsed m h) := stable_committed _

theorem commit_spec (context h : String) (m : Nat) {parsed : List ParsedEntry}
    (hv : validateRequest (calls i).sup (calls i).req = .ok parsed) :
    Session digest salt calls replica i
      (Filled i h m (filledRows (calls i) (hashEntries digest salt (calls i).sup
        ((calls i).sup.nowIso 0) (calls i).req.postingId h parsed) m))
      (query context (issue .commit)) fun _ => Recorded digest salt i (calls i) parsed m h := by
  refine query_spec _ (fun _ => stable_recorded (calls i) parsed m h)
    (Triple.perform (stable_filled h m _) ?_
      (Stable.answers fun _ => stable_recorded (calls i) parsed m h))
  intro w r w' hw hI he
  obtain ⟨anchors, hnum, hhead, htx⟩ := hw
  rcases he with ⟨e, he, rfl⟩ | ⟨t, ht, rfl⟩
  · refine ⟨⟨keyInv_discard hI.keys, fun k c hc =>
      made_grows hI (show (w.discard i).base = w.base from rfl) List.prefix_rfl hc⟩, fun a ha => ?_⟩
    rw [he] at ha
    cases ha
  · have htt := Option.some.inj (ht.symm.trans htx)
    have hbook : Booked digest salt (calls i) parsed m h t := by
      rw [htt]
      exact filledRows_booked (calls i) parsed m h anchors
    refine ⟨commit_poolInv hI ht hv hbook hhead hnum, fun a _ => ?_⟩
    exact ⟨_, List.mem_append_right _ (List.mem_singleton_self _), rfl, hbook⟩

theorem cache_spec (f : LedgerState → LedgerState) (parsed : List ParsedEntry) (m : Nat)
    (h : String) :
    Session digest salt calls replica i (Recorded digest salt i (calls i) parsed m h)
      (step (issue (.cache f))) fun _ => Recorded digest salt i (calls i) parsed m h := by
  refine step_spec (fun _ => stable_recorded _ _ _ _) (statement_spec (stable_recorded _ _ _ _)
    (by simp) (fun _ => stable_recorded _ _ _ _) fun w r w' hw he => ?_)
  rw [he]
  exact hw

theorem emitTo_spec (sink : Bool) (event : AuditEvent) (parsed : List ParsedEntry) (m : Nat)
    (h : String) :
    Session digest salt calls replica i (Recorded digest salt i (calls i) parsed m h)
      (emitTo sink event) fun _ => Recorded digest salt i (calls i) parsed m h := by
  cases sink with
  | false => exact TripleOk.pure _ (stable_recorded _ _ _ _)
  | true =>
    refine step_spec (fun _ => stable_recorded _ _ _ _) (statement_spec (stable_recorded _ _ _ _)
      (by simp) (fun _ => stable_recorded _ _ _ _) fun w r w' hw he => ?_)
    rw [he]
    exact hw

/-- The answer of a fresh posting is the one a replay of it gives. -/
theorem booked_response {call : PoolCall} {parsed : List ParsedEntry} {m : Nat} {h : String}
    {t : Tables} (hb : Booked digest salt call parsed m h t) {l : HashLoop}
    (hl : NumbersTo m l (memoryLoop digest salt call m h parsed)) :
    t.response = some ⟨call.req.postingId, "POSTED", l.entryIds, l.prevHash⟩ := by
  have hids : t.entries.map (·.entryId) = l.entryIds := by
    rw [hb.entries, List.map_map, hl.entryIds, memoryLoop_spec.entryIds]
    rfl
  unfold Tables.response
  rw [hb.postings, hids, hl.prevHash]
  rfl

theorem recorded_answered {call : PoolCall} {parsed : List ParsedEntry} {m : Nat} {h : String}
    {l : HashLoop} (hl : NumbersTo m l (memoryLoop digest salt call m h parsed)) {w : World}
    (hw : Recorded digest salt i call parsed m h w) : Answered i call.req.postingId
      (⟨call.req.postingId, "POSTED", l.entryIds, l.prevHash⟩, false) w := by
  obtain ⟨c, hc, hsession, hb⟩ := hw
  exact fun _ => ⟨c, hc, (hb.hasPosting _).mpr rfl, booked_response hb hl, fun _ => hsession⟩

theorem postFresh_spec (sink : Bool) {parsed : List ParsedEntry}
    (hv : validateRequest (calls i).sup (calls i).req = .ok parsed) :
    Session digest salt calls replica i (fun _ => True)
      (postFresh digest salt (calls i).sup sink (calls i).req parsed)
      (Answered i (calls i).req.postingId) := by
  refine TripleOk.bind (Rely.refl i) (step_spec stable_head lastEntryHash_spec) fun h => ?_
  refine TripleOk.bind (Rely.refl i) (begin_spec _ h) fun _ => ?_
  refine TripleOk.bind (Rely.refl i) (orRollback_spec ?_ (insertPosting_spec (calls i) h _))
    fun found => ?_
  · intro found w w' hw hR last created hsome
    obtain ⟨m, hlast, hcreated, hfilled⟩ := hw last created hsome
    exact ⟨m, hlast, hcreated, stable_filled h m _ w w' hfilled hR⟩
  cases found with
  | none =>
    refine TripleOk.bind (M := fun _ _ => True) (Rely.refl i) ?_ fun _ => ?_
    · exact step_spec (fun _ => Stable.const True)
        (rollback_spec.imp (fun _ _ => trivial) fun _ _ hw => hw)
    · exact TripleOk.bind (Rely.refl i) (fetchExisting_spec _)
        fun row => replayFound_spec _ row _ rfl
  | some numbered =>
    obtain ⟨last, created⟩ := numbered
    intro w hw
    obtain ⟨m, _, _, hfilled⟩ := hw last created rfl
    have hl := hashEntries_numbersTo digest salt (calls i) m h parsed
    refine TripleOk.bind (Rely.refl i) (commit_spec _ h m hv) (fun _ => ?_) w hfilled
    refine TripleOk.bind (Rely.refl i) (cache_spec _ parsed m h) fun _ => ?_
    refine TripleOk.bind (Rely.refl i) (cache_spec _ parsed m h) fun _ => ?_
    refine TripleOk.bind (Rely.refl i) (emitTo_spec sink _ parsed m h) fun _ => ?_
    exact TripleOk.pure _ fun w w' hw hR =>
      recorded_answered hl (stable_recorded (calls i) parsed m h w w' hw hR)

/-- **A call that returns `Ok` answers for one committed transaction of its posting**, in every
    environment. -/
theorem postPool_spec :
    Steps digest salt calls replica i (fun _ => True)
      (postPool digest salt (calls i).sup (calls i).sink (calls i).req)
      fun r w => ∀ a, r = .ok a → Answered i (calls i).req.postingId a w := by
  unfold postPool
  cases hv : validateRequest (calls i).sup (calls i).req with
  | error e => exact Triple.ret _ fun _ _ _ _ a ha => by cases ha
  | ok parsed =>
    refine TripleOk.bind (Rely.refl i) (selectPosting_spec _ _) fun found => ?_
    cases found with
    | some row => exact replayFound_spec _ row _ rfl
    | none =>
      refine TripleOk.imp ?_ (fun _ _ => trivial) fun _ _ hw => hw
      refine TripleOk.bind (M := fun _ _ => True) (Rely.refl i) ?_ fun _ => ?_
      · exact TripleOk.forM (Rely.refl i) (Stable.const True) fun p _ => checkActiveDb_spec p
      refine TripleOk.bind (M := fun _ _ => True) (Rely.refl i) ?_ fun _ => postFresh_spec _ hv
      exact TripleOk.forM (Rely.refl i) (Stable.const True) fun p _ => checkDirectionDb_spec p

/-! ## 7. Interleavings of calls -/

/-- A configuration that the calls can reach from the given tables and caches. -/
abbrev Interleaved (digest : ByteArray → String) (salt : String) (calls : Nat → PoolCall)
    (replica : Nat → Nat) (base : Tables) (inner : Nat → LedgerState)
    (c : Config World Nat Stmt Reply (Except PostError (PostingResponse × Bool))) : Prop :=
  Reach (Exec replica) (startCalls digest salt calls (World.start base inner)) c

section Interleaving

variable {base : Tables} {inner : Nat → LedgerState}
  {c : Config World Nat Stmt Reply (Except PostError (PostingResponse × Bool))}

/-- What holds at the start and is kept by every statement holds in every interleaving. -/
theorem interleaved_invariant {I : World → Prop} (h0 : I (World.start base inner))
    (hstep : ∀ i o w r w', Exec replica i o w r w' → I w → I w')
    (h : Interleaved digest salt calls replica base inner c) : I c.state := by
  induction h with
  | refl => exact h0
  | tail _ hs ih =>
    cases hs with
    | issue i o k r s next he => exact hstep i o _ r s he ih

theorem interleaved_base (h : Interleaved digest salt calls replica base inner c) :
    c.state.base = base :=
  interleaved_invariant (I := fun w => w.base = base) rfl
    (fun i o _ r _ he hI => (exec_frame (Nat.succ_ne_self i).symm o r he).base.trans hI) h

/-- **In every interleaving the invariant holds, and every call that has returned `Ok` answers for
    one committed transaction of its posting.** -/
theorem interleaved_sound (h : Interleaved digest salt calls replica base inner c) :
    PoolInv digest salt calls c.state ∧ ∀ j a, (c.threads j).result = some (.ok a) →
      Answered j (calls j).req.postingId a c.state := by
  have hsound : PoolInv digest salt calls c.state ∧ ∀ j, Holds (Rely j) (PoolInv digest salt calls)
      (Exec replica j) (fun r w => ∀ a, r = .ok a → Answered j (calls j).req.postingId a w)
      (c.threads j) c.state :=
    interleaving_sound Rely.refl (fun _ _ _ _ h h' => h.trans h')
      (fun i j hij o w r w' he => exec_frame hij o r he) (poolInv_start base inner)
      (fun j => postPool_spec _ trivial) h
  obtain ⟨hI, hthreads⟩ := hsound
  exact ⟨hI, fun j a ha => (hthreads j).result (Rely.refl j) ha a rfl⟩

end Interleaving

end LedgerAccounting
