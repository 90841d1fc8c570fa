/-
  File:      LedgerAccounting/Pool/LostRead.lean
  Subject:   Failing statements and the hash chain, in calls that do not overlap.

  Of the statements of `post_via_db` all but one end the call when they fail. The read of the last
  hash ends in `ok()?`, as if the table were empty: the posting is then hashed after the genesis
  mark and committed.

  * `post_chained`: a post that has not lost its read keeps the chain.
  * `lost_head_breaks`: one that has lost it breaks the chain.
  * `chain_holds_iff_read`: the chain holds exactly in the runs whose commits had their read.
-/
import LedgerAccounting.Pool.Sequential

namespace LedgerAccounting

open Script Linked

/-! ## 1. Lost reads -/

/-- The table verifies, in whatever order a read returns its rows. -/
def Verifies (digest : ByteArray → String) (salt : String) (l : List EntryRow) : Prop :=
  ∀ rows, Ordered l rows → verifyRows digest salt (.ok rows) = .ok ()

/-- The transaction was committed on a table with rows, hashed after a read of the last hash that
    had found none. -/
def Commit.LostHead (c : Commit) (before : List EntryRow) : Prop :=
  before ≠ [] ∧ ∃ read ∈ c.readAt, read.found = none

/-- No row of the table was hashed to the genesis mark. -/
def NeverGenesis (digest : ByteArray → String) (salt : String) (l : List EntryRow) : Prop :=
  ∀ b ∈ hashInputs salt (l.map (·.record)), digest b ≠ genesisHash

/-- The rows are numbered upwards. -/
def Increasing (l : List EntryRow) : Prop :=
  l.Pairwise fun a b => a.sequenceNumber < b.sequenceNumber

section Chain

variable {digest : ByteArray → String} {salt : String} {l : List EntryRow}

theorem verifies_iff (hl : Increasing l) : Verifies digest salt l ↔ Chained digest salt l := by
  constructor
  · intro h
    exact ⟨hl, h l ⟨List.Perm.refl l, hl.imp fun hlt => hlt.le⟩⟩
  · intro h rows hrows
    exact h.read hrows

/-- The first rows of a table that verifies verify. -/
theorem verifies_before {m : List EntryRow} (hl : Increasing (l ++ m))
    (h : Verifies digest salt (l ++ m)) : Verifies digest salt l := by
  have hl' : Increasing l := (List.pairwise_append.mp hl).1
  obtain ⟨hlinked, hseals⟩ := (verifyRows_ok_iff _).mp ((verifies_iff hl).mp h).verifies
  rw [List.map_append] at hlinked hseals
  have hok := (verifyRows_ok_iff l).mpr ⟨(linkedFrom_append.mp hlinked).1,
    fun e he => hseals e (List.mem_append_left _ he)⟩
  exact (verifies_iff hl').mpr ⟨hl', hok⟩

/-! ## 2. One call -/

variable {call : PoolCall} {clean : Prop} {i : Nat} {w : World} {parsed : List ParsedEntry}
  {rd : Except String (Option String)}

/-- **A post that has not lost its read keeps the chain.** -/
theorem post_chained (hfresh : FreshPost call clean w parsed rd)
    (hl : Chained digest salt w.db.entries)
    (hread : ¬ (callCommit digest salt call i w parsed rd).LostHead w.db.entries) :
    Chained digest salt
      (w.db.entries ++ (callCommit digest salt call i w parsed rd).tables.entries) := by
  have hlast : IsLastHash w.db.entries (foundHash rd) := by
    cases rd with
    | ok found => exact hfresh.read found rfl
    | error e =>
      by_contra hne
      exact hread ⟨hne, _, rfl, rfl⟩
  exact chained_booked hl hlast (callCommit_booked digest salt call i w parsed rd) hfresh.valid

/-- **A post that has lost its read breaks the chain**: its first row follows the genesis mark. -/
theorem lost_head_breaks (hfresh : FreshPost call clean w parsed rd)
    (hl : Increasing w.db.entries) (hd : NeverGenesis digest salt w.db.entries)
    (hlost : (callCommit digest salt call i w parsed rd).LostHead w.db.entries) :
    ¬ Verifies digest salt
      (w.db.entries ++ (callCommit digest salt call i w parsed rd).tables.entries) := by
  intro h
  obtain ⟨hne, read, hread, hnone⟩ := hlost
  have hfound : foundHash rd = none := by
    cases hread
    exact hnone
  have hall : Increasing
      (w.db.entries ++ (callCommit digest salt call i w parsed rd).tables.entries) :=
    booked_increasing hl (callCommit_booked digest salt call i w parsed rd)
  obtain ⟨hlinked, hseals⟩ := (verifyRows_ok_iff _).mp ((verifies_iff hall).mp h).verifies
  obtain ⟨e, rest, hrows, hprev⟩ :=
    booked_first (callCommit_booked digest salt call i w parsed rd) hfresh.valid
  rw [hrows, List.map_append] at hlinked hseals
  have hstart : e.prevHash = genesisHash := by
    rw [hprev, startHash, hfound]
    rfl
  have hhead : genesisHash = entriesHead genesisHash (w.db.entries.map (·.record)) := by
    obtain ⟨_, hfirst, _⟩ := linkedFrom_append.mp hlinked
    exact hstart.symm.trans hfirst
  have havoids : Avoids EntryRecord.thisHash genesisHash (w.db.entries.map (·.record)) := by
    intro x hx
    obtain ⟨c, hc, hseal⟩ := hseals x (List.mem_append_left _ hx)
    rw [hseal]
    exact hd _ (mem_hashInputs salt hx hc)
  exact havoids.head_ne (by simpa using hne) hhead.symm

/-- What a post leaves in the table, either way. -/
theorem post_keeps_iff {w' : World} {replica : Nat → Nat}
    {r : Except PostError (PostingResponse × Bool)} (hl : Increasing w.db.entries)
    (h : PostOutcome digest salt call clean replica i w r w') :
    Increasing w'.db.entries ∧
    (Verifies digest salt w.db.entries →
      (∀ c ∈ w'.log.drop w.log.length, ¬ c.LostHead w.db.entries) →
      Verifies digest salt w'.db.entries) ∧
    (NeverGenesis digest salt w.db.entries → Verifies digest salt w'.db.entries →
      Verifies digest salt w.db.entries ∧
        ∀ c ∈ w'.log.drop w.log.length, ¬ c.LostHead w.db.entries) := by
  obtain ⟨hbase, _, hlog | ⟨parsed, rd, hfresh, hlog⟩⟩ := h.log
  · have hdb : w'.db = w.db := by
      unfold World.db
      rw [hbase, hlog]
    rw [hdb, hlog, List.drop_length]
    exact ⟨hl, fun hok _ => hok, fun _ hok => ⟨hok, fun c hc => absurd hc List.not_mem_nil⟩⟩
  · have hdb : w'.db.entries =
        w.db.entries ++ (callCommit digest salt call i w parsed rd).tables.entries := by
      unfold World.db
      rw [hbase, hlog, tablesAfter_concat, append_entries]
    have hall : Increasing
        (w.db.entries ++ (callCommit digest salt call i w parsed rd).tables.entries) :=
      booked_increasing hl (callCommit_booked digest salt call i w parsed rd)
    rw [hdb, hlog, List.drop_left]
    refine ⟨hall, fun hok hread => ?_,
      fun hd hok => ⟨verifies_before hall hok, fun c hc hlost => ?_⟩⟩
    · have hchained := (verifies_iff hl).mp hok
      exact (verifies_iff hall).mpr
        (post_chained hfresh hchained (hread _ (List.mem_singleton_self _)))
    · rw [List.mem_singleton.mp hc] at hlost
      exact lost_head_breaks hfresh hl hd hlost hok

end Chain

/-! ## 3. Runs -/

section Runs

variable {digest : ByteArray → String} {salt : String} {calls : Nat → PoolCall} {clean : Prop}
  {replica : Nat → Nat} {base : Tables} {inner : Nat → LedgerState} {w : World}
  {answers : List (Except PostError (PostingResponse × Bool))}

/-- No transaction of the log was committed with a lost read. -/
def World.KeptHeads (w : World) : Prop :=
  ∀ (k : Nat) (c : Commit), w.log[k]? = some c → ¬ c.LostHead (w.dbAt k).entries

/-- A post adds at most one transaction to those that must have kept their read. -/
theorem keptHeads_post {w w' : World} (hb : w'.base = w.base)
    (hlog : w'.log = w.log ∨ ∃ c, w'.log = w.log ++ [c]) :
    w'.KeptHeads ↔ w.KeptHeads ∧
      ∀ c ∈ w'.log.drop w.log.length, ¬ Commit.LostHead c w.db.entries := by
  have hdbAt : ∀ k, k ≤ w.log.length → w'.dbAt k = w.dbAt k := by
    intro k hk
    refine dbAt_grows hb ?_ hk
    rcases hlog with heq | ⟨c, heq⟩
    · rw [heq]
    · exact ⟨[c], heq.symm⟩
  have hsome : ∀ {k : Nat} {c : Commit}, w.log[k]? = some c → k ≤ w.log.length := fun hc =>
    (List.getElem?_eq_some_iff.mp hc).1.le
  unfold World.KeptHeads
  rcases hlog with heq | ⟨d, heq⟩
  · rw [heq, List.drop_length]
    refine ⟨fun h => ⟨fun k c hc => ?_, fun c hc => absurd hc List.not_mem_nil⟩,
      fun h k c hc => ?_⟩
    · rw [← hdbAt k (hsome hc)]
      exact h k c hc
    · rw [hdbAt k (hsome hc)]
      exact h.1 k c hc
  · rw [heq, List.drop_left]
    have hlast : (w.log ++ [d])[w.log.length]? = some d := by simp
    refine ⟨fun h => ⟨fun k c hc => ?_, fun c hc => ?_⟩, fun h k c hc => ?_⟩
    · rw [← hdbAt k (hsome hc)]
      refine h k c ?_
      rw [List.getElem?_append_left (List.getElem?_eq_some_iff.mp hc).1, hc]
    · rw [List.mem_singleton.mp hc, ← dbAt_length, ← hdbAt _ le_rfl]
      exact h _ d hlast
    · rcases Nat.lt_or_ge k w.log.length with hk | hk
      · rw [List.getElem?_append_left hk] at hc
        rw [hdbAt k hk.le]
        exact h.1 k c hc
      · obtain ⟨hlt, _⟩ := List.getElem?_eq_some_iff.mp hc
        have hkl : k = w.log.length := by
          rw [List.length_append, List.length_singleton] at hlt
          omega
        subst hkl
        rw [hlast] at hc
        cases hc
        rw [hdbAt _ le_rfl, dbAt_length]
        exact h.2 d (List.mem_singleton_self d)

theorem PostOutcome.one_commit {call : PoolCall} {i : Nat} {w' : World}
    {r : Except PostError (PostingResponse × Bool)}
    (h : PostOutcome digest salt call clean replica i w r w') :
    w'.base = w.base ∧ (w'.log = w.log ∨ ∃ c, w'.log = w.log ++ [c]) := by
  obtain ⟨hb, _, hlog | ⟨_, _, _, hlog⟩⟩ := h.log
  · exact ⟨hb, Or.inl hlog⟩
  · exact ⟨hb, Or.inr ⟨_, hlog⟩⟩

/-- The rows of a table are those of the tables before it, and more. -/
theorem NeverGenesis.before {w' : World} (hb : w'.base = w.base) {rest : List Commit}
    (hlog : w'.log = w.log ++ rest) (h : NeverGenesis digest salt w'.db.entries) :
    NeverGenesis digest salt w.db.entries := by
  intro b hmem
  refine h b ?_
  unfold World.db at hmem ⊢
  rw [hb, hlog, tablesAfter_entries, List.flatMap_append, ← List.append_assoc,
    ← tablesAfter_entries]
  unfold hashInputs at hmem ⊢
  rw [List.map_append, List.filterMap_append]
  exact List.mem_append_left _ hmem

/-- **The chain holds after a run exactly when every commit had its read**, one post after the
    other. -/
theorem sequential_keeps_iff (hbase : Increasing base.entries)
    (h : Sequential digest salt calls clean replica base inner answers w) :
    Increasing w.db.entries ∧
    (Verifies digest salt base.entries → w.KeptHeads → Verifies digest salt w.db.entries) ∧
    (NeverGenesis digest salt w.db.entries → Verifies digest salt w.db.entries →
      Verifies digest salt base.entries ∧ w.KeptHeads) := by
  induction h with
  | start => exact ⟨hbase, fun hok _ => hok, fun _ hok => ⟨hok, fun k c hc => by cases hc⟩⟩
  | @post answers r v v' before ran ih =>
    obtain ⟨hl, hkeep, hback⟩ := ih
    have hout := before.outcome rfl ran
    obtain ⟨hb, hlog⟩ := hout.one_commit
    obtain ⟨hl', hkeep', hback'⟩ := post_keeps_iff hl hout
    rw [keptHeads_post hb hlog]
    refine ⟨hl', fun hok hkept => hkeep' (hkeep hok hkept.1) hkept.2, fun hd hok => ?_⟩
    have hdv : NeverGenesis digest salt v.db.entries := by
      rcases hlog with heq | ⟨c, heq⟩
      · have hnil : v'.log = v.log ++ [] := by rw [heq, List.append_nil]
        exact hd.before hb hnil
      · exact hd.before hb heq
    obtain ⟨hokv, hnew⟩ := hback' hdv hok
    obtain ⟨hokb, hkept⟩ := hback hdv hokv
    exact ⟨hokb, hkept, hnew⟩

end Runs

/-- **Failing statements and the chain.** In every run of calls that do not overlap, with any of
    their statements failing: a post on a table that verifies leaves it verified, unless its read of
    the last hash failed on a table with rows and its commit was applied; then the table does not
    verify, unless the digest of a row is the genesis mark. So the table verifies after the run
    exactly when it did before and every commit had its read. -/
theorem chain_holds_iff_read (digest : ByteArray → String) (salt : String) (calls : Nat → PoolCall)
    (replica : Nat → Nat) (base : Tables) (inner : Nat → LedgerState)
    (hbase : Increasing base.entries)
    (answers : List (Except PostError (PostingResponse × Bool))) (w : World)
    (h : Sequential digest salt calls False replica base inner answers w) :
    (∀ r w', Ran (ExecIf False replica answers.length) (postPool digest salt
        (calls answers.length).sup (calls answers.length).sink (calls answers.length).req) w r w' →
      Verifies digest salt w.db.entries →
      ((∀ c ∈ w'.log.drop w.log.length, ¬ Commit.LostHead c w.db.entries) →
        Verifies digest salt w'.db.entries) ∧
      (NeverGenesis digest salt w.db.entries → Verifies digest salt w'.db.entries →
        ∀ c ∈ w'.log.drop w.log.length, ¬ Commit.LostHead c w.db.entries)) ∧
    (Verifies digest salt base.entries → w.KeptHeads → Verifies digest salt w.db.entries) ∧
    (NeverGenesis digest salt w.db.entries → Verifies digest salt w.db.entries →
      Verifies digest salt base.entries ∧ w.KeptHeads) := by
  obtain ⟨hl, hkeep, hback⟩ := sequential_keeps_iff hbase h
  refine ⟨fun r w' hran hok => ?_, hkeep, hback⟩
  obtain ⟨_, hkeep', hback'⟩ := post_keeps_iff hl (h.outcome rfl hran)
  exact ⟨hkeep' hok, fun hd hok' => (hback' hd hok').2⟩

/-! ## 4. One lost read -/

/-- Every statement succeeds but the read of the last hash. -/
def execLost (i : Nat) : (o : Stmt) → World → Option (Reply o × World)
  | .selectLastHash, w =>
    some (.error "connection closed", w.readLastHash i (.error "connection closed"))
  | o, w => exec id i o w

theorem execLost_sound (i : Nat) (o : Stmt) (w : World) (r : Reply o) (w' : World)
    (h : execLost i o w = some (r, w')) : ExecIf False id i o w r w' := by
  refine ⟨?_, False.elim⟩
  unfold execLost at h
  split at h
  · cases h
    exact ⟨rfl, fun a ha => by cases ha⟩
  · exact exec_sound id i _ w r w' h

/-- The second call, whose read of the last hash fails. -/
def sampleLost : Except PostError (PostingResponse × Bool) × World :=
  (runAlone (execLost 1) (samplePost 1) sampleFirst.2).get (by decide +kernel)

theorem sampleLost_ran :
    Ran (ExecIf False id 1) (samplePost 1) sampleFirst.2 sampleLost.1 sampleLost.2 :=
  ran_runAlone (execLost_sound 1) _ _ _

theorem sampleTables_increasing : Increasing sampleTables.entries := List.Pairwise.nil

theorem sampleTables_verifies : Verifies plainDigest sampleSalt sampleTables.entries :=
  (verifies_iff sampleTables_increasing).mpr chained_nil

/-- The first posting was committed on a table without rows. -/
theorem sampleFirst_kept : sampleFirst.2.KeptHeads := by
  intro k c hc hlost
  have hlen : sampleFirst.2.log.length = 1 := by decide +kernel
  obtain ⟨hk, _⟩ := List.getElem?_eq_some_iff.mp hc
  obtain rfl : k = 0 := by omega
  have hnone : (sampleFirst.2.dbAt 0).entries = [] := by decide +kernel
  exact hlost.1 hnone

theorem chain_holds_iff_read_sample : Verifies plainDigest sampleSalt sampleFirst.2.db.entries :=
  (chain_holds_iff_read plainDigest sampleSalt sampleTwo id sampleTables (fun _ => .new)
    sampleTables_increasing _ _ (sampleFirst_sequential False)).2.1 sampleTables_verifies
    sampleFirst_kept

/-- **A post whose read of the last hash fails returns `Ok` and breaks the chain.** -/
theorem lost_read_breaks_chain :
    Sequential plainDigest sampleSalt sampleTwo False id sampleTables (fun _ => .new)
      [sampleFirst.1] sampleFirst.2 ∧
    Ran (ExecIf False id 1) (postPool plainDigest sampleSalt (sampleTwo 1).sup (sampleTwo 1).sink
      (sampleTwo 1).req) sampleFirst.2 sampleLost.1 sampleLost.2 ∧
    recordedOk (some sampleLost.1) = true ∧
    Verifies plainDigest sampleSalt sampleFirst.2.db.entries ∧
    ∀ rows, Ordered sampleLost.2.db.entries rows →
      verifyRows plainDigest sampleSalt (.ok rows) ≠ .ok () := by
  have hstarts : (sampleLost.2.db.entries.map (·.prevHash)).count genesisHash = 2 := by
    decide +kernel
  refine ⟨sampleFirst_sequential False, sampleLost_ran, by decide +kernel, ?_, fun rows hrows => ?_⟩
  · obtain ⟨_, hkeep, _⟩ :=
      sequential_keeps_iff sampleTables_increasing (sampleFirst_sequential False)
    exact hkeep sampleTables_verifies sampleFirst_kept
  · exact two_starts_refused hstarts.ge hrows

end LedgerAccounting
