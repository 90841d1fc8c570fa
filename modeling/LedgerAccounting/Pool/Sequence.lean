/-
  File:      LedgerAccounting/Pool/Sequence.lean
  Subject:   Sequence numbers and the hash chain under concurrent `post` calls.

  A call reads the last hash before it opens its transaction, and the largest sequence number
  through the pool. Another commit between these reads and its own commit makes both stale.

  * `chained_booked`: a posting that is numbered and hashed after the last row extends the chain.
  * `posts_chained_iff`: the chain holds exactly when every commit is made on the rows its session
    saw.
  * `concurrent_posts_break_chain`: two calls side by side that break it.
-/
import LedgerAccounting.Pool.Idempotency

namespace LedgerAccounting

open Script Linked

section

variable (digest : ByteArray → String) (salt : String)

/-! ## 1. `Store::verify_chain` with a pool -/

/-- `Store::verify_chain` with a pool, on the result of its one read. -/
def verifyRows : Except String (List EntryRow) → Except ChainBreak Unit
  | .ok rows => verifyChain digest salt { LedgerState.new with entries := rows.map (·.record) }
  | .error err => .error ⟨"", s!"db read failed: {err}"⟩

/-! ## 2. Tables that carry the chain -/

/-- The rows are numbered upwards and verify in that order. -/
structure Chained (l : List EntryRow) : Prop where
  increasing : l.Pairwise fun a b => a.sequenceNumber < b.sequenceNumber
  verifies : verifyRows digest salt (.ok l) = .ok ()

end

section Chain

variable {digest : ByteArray → String} {salt : String}

theorem chained_nil : Chained digest salt [] := ⟨List.Pairwise.nil, rfl⟩

theorem verifyRows_ok_iff (l : List EntryRow) : verifyRows digest salt (.ok l) = .ok () ↔
    EntriesLinked genesisHash (l.map (·.record)) ∧
      ∀ e ∈ l.map (·.record), Sealed digest salt e :=
  verifyChain_ok_iff _

/-- A chained table reads back in one order, and verifies. -/
theorem Chained.read {l rows : List EntryRow} (h : Chained digest salt l) (hr : Ordered l rows) :
    verifyRows digest salt (.ok rows) = .ok () := by
  rw [ordered_unique hr h.increasing]
  exact h.verifies

/-- The hash a session takes from a chained table is the head of the chain. -/
theorem isLastHash_head {l : List EntryRow}
    (hl : l.Pairwise fun a b => a.sequenceNumber < b.sequenceNumber) {found : Option String}
    (hh : IsLastHash l found) :
    found.getD genesisHash = entriesHead genesisHash (l.map (·.record)) := by
  cases found with
  | none =>
    rw [show l = [] from hh]
    rfl
  | some g =>
    obtain ⟨e, he, rfl, hmax⟩ := hh
    rcases List.eq_nil_or_concat l with rfl | ⟨init, x, rfl⟩
    · exact absurd he List.not_mem_nil
    rw [List.concat_eq_append] at hl he hmax ⊢
    have hex : e = x := by
      rcases List.mem_append.mp he with hin | hin
      · have hlt := (List.pairwise_append.mp hl).2.2 e hin x (List.mem_singleton_self x)
        have hle := hmax x (List.mem_append_right _ (List.mem_singleton_self x))
        omega
      · exact List.mem_singleton.mp hin
    subst hex
    simp [EntryRow.record]

/-! ## 3. A posting on top of the chain -/

/-- **The store reads back the entries it has booked.** -/
theorem booked_records {call : PoolCall} {parsed : List ParsedEntry} {m : Nat} {h : String}
    {t : Tables} (hb : Booked digest salt call parsed m h t)
    (hv : validateRequest call.sup call.req = .ok parsed) :
    t.entries.map (·.record) = (memoryLoop digest salt call m h parsed).createdEntries := by
  rw [hb.entries, List.map_map]
  have hrecord : ∀ e ∈ (memoryLoop digest salt call m h parsed).createdEntries,
      e.row.record = e := by
    intro e he
    obtain ⟨p, hp, _, _, _, rfl⟩ := Runs.forall₂_mem_right memoryLoop_spec.made he
    have hmax : p.amount ≤ maxAmount :=
      (((validateRequest_ok_iff _ _ _).mp hv).amount p hp).2
    have hbits : maxAmount < 2 ^ 64 := by decide
    exact record_row (hmax.trans_lt hbits) (call.sup.clock_lt 0) rfl
  exact (List.map_congr_left hrecord).trans (List.map_id _)

/-- A posting that is numbered after the last row keeps the numbers increasing. -/
theorem booked_increasing {l : List EntryRow}
    (hl : l.Pairwise fun a b => a.sequenceNumber < b.sequenceNumber) {call : PoolCall}
    {parsed : List ParsedEntry} {h : String} {t : Tables}
    (hb : Booked digest salt call parsed (maxSequence l) h t) :
    (l ++ t.entries).Pairwise fun a b => a.sequenceNumber < b.sequenceNumber := by
  refine List.pairwise_append.mpr ⟨hl, hb.increasing, fun a ha b hbt => ?_⟩
  obtain ⟨hlow, _⟩ := Paging.numbered_bounds hb.numbers hbt
  have hle := le_maxSequence ha
  omega

/-- **A posting that is numbered and hashed after the last row extends the chain.** -/
theorem chained_booked {l : List EntryRow} (hl : Chained digest salt l) {call : PoolCall}
    {parsed : List ParsedEntry} {found : Option String} (hh : IsLastHash l found) {t : Tables}
    (hb : Booked digest salt call parsed (maxSequence l) (found.getD genesisHash) t)
    (hv : validateRequest call.sup call.req = .ok parsed) :
    Chained digest salt (l ++ t.entries) := by
  obtain ⟨hlinked, hseals⟩ := (verifyRows_ok_iff l).mp hl.verifies
  have hrecords := booked_records hb hv
  refine ⟨booked_increasing hl.increasing hb,
    (verifyRows_ok_iff _).mpr ⟨?_, fun e he => ?_⟩⟩
  · rw [List.map_append, hrecords]
    have hstart : headFrom EntryRecord.thisHash genesisHash (l.map (·.record)) =
        found.getD genesisHash := (isLastHash_head hl.increasing hh).symm
    refine linkedFrom_append.mpr ⟨hlinked, ?_⟩
    rw [hstart]
    exact memoryLoop_spec.linked
  · rw [List.map_append, hrecords] at he
    rcases List.mem_append.mp he with he | he
    · exact hseals e he
    · exact made_sealed memoryLoop_spec.made e he

end Chain

/-! ## 4. Serial commits -/

/-- The `k`th transaction was committed on the very rows its session had read the last hash from,
    and that read found the last hash. -/
def SerialAt (w : World) (k : Nat) (c : Commit) : Prop :=
  ∃ r ∈ c.readAt, r.committed = k ∧ IsLastHash (w.dbAt k).entries r.found

instance (w : World) (k : Nat) (c : Commit) : Decidable (SerialAt w k c) :=
  inferInstanceAs (Decidable (∃ r ∈ c.readAt, r.committed = k ∧
    IsLastHash (w.dbAt k).entries r.found))

/-- The session took the last of the rows committed before. -/
theorem SerialAt.of_read {w : World} {k : Nat} {c : Commit}
    (h : c.readAt = some ⟨k, (bySequence (w.dbAt k).entries).getLast?.map (·.thisHash)⟩) :
    SerialAt w k c :=
  ⟨_, h, rfl, getLast_isLastHash _⟩

/-- Every transaction was. -/
def Serial (w : World) : Prop := ∀ k (hk : k < w.log.length), SerialAt w k (w.log[k])

instance (w : World) : Decidable (Serial w) :=
  inferInstanceAs (Decidable (∀ k (hk : k < w.log.length), SerialAt w k (w.log[k])))

section Runs

variable {digest : ByteArray → String} {salt : String} {calls : Nat → PoolCall} {w : World}

theorem dbAt_succ {k : Nat} (hk : k < w.log.length) :
    (w.dbAt (k + 1)).entries = (w.dbAt k).entries ++ (w.log[k]).tables.entries := by
  unfold World.dbAt
  rw [List.take_succ_eq_append_getElem hk, tablesAfter_concat, append_entries]

/-- **The chain grows with every serial commit.** -/
theorem chained_dbAt (hI : PoolInv digest salt calls w) (hbase : Chained digest salt w.base.entries)
    (n : Nat) (hn : n ≤ w.log.length)
    (hs : ∀ k (hk : k < w.log.length), k < n → SerialAt w k (w.log[k])) :
    Chained digest salt (w.dbAt n).entries := by
  induction n with
  | zero => exact hbase
  | succ k ih =>
    obtain ⟨parsed, m, h, hmade⟩ := hI.made k _ (List.getElem?_eq_getElem hn)
    obtain ⟨r, hr, hrk, hlast⟩ := hs k hn (Nat.lt_succ_self k)
    obtain ⟨r', hr', _, rfl, _⟩ := hmade.head
    obtain ⟨r'', n, hr'', hrn, hnk, rfl⟩ := hmade.number
    obtain rfl := Option.some.inj (hr'.symm.trans hr)
    obtain rfl := Option.some.inj (hr''.symm.trans hr)
    have hnk' : n = k := by omega
    subst hnk'
    have hbefore := ih (Nat.le_of_succ_le hn) fun j hj hjn => hs j hj (Nat.lt_succ_of_lt hjn)
    rw [dbAt_succ hn]
    exact chained_booked hbefore hlast hmade.booked hmade.valid

/-! ## 5. Commits that are not serial -/

/-- A committed posting has entries, and the first one follows the hash it was booked after. -/
theorem booked_first {call : PoolCall} {parsed : List ParsedEntry} {m : Nat} {h : String}
    {t : Tables} (hb : Booked digest salt call parsed m h t)
    (hv : validateRequest call.sup call.req = .ok parsed) :
    ∃ e rest, t.entries = e :: rest ∧ e.prevHash = h := by
  have hvalid := (validateRequest_ok_iff _ _ _).mp hv
  have hspec : LoopSpec digest salt (call.sup.nowIso 0) call.req.postingId m h call.sup parsed
      (memoryLoop digest salt call m h parsed) := memoryLoop_spec
  rw [hb.entries]
  cases hcreated : (memoryLoop digest salt call m h parsed).createdEntries with
  | nil =>
    have hmade := hspec.made.length_eq
    have hparses := hvalid.parses.length_eq
    rw [hcreated, List.length_nil] at hmade
    rw [hmade] at hparses
    exact absurd (List.length_eq_zero_iff.mp hparses) hvalid.nonempty
  | cons e rest =>
    have hlinked := hspec.linked
    rw [hcreated] at hlinked
    exact ⟨e.row, rest.map (·.row), rfl, hlinked.1⟩

/-- Later tables hold more entries. -/
theorem dbAt_entries_ne (hI : PoolInv digest salt calls w) {n k : Nat} (hnk : n < k)
    (hk : k ≤ w.log.length) : (w.dbAt k).entries ≠ (w.dbAt n).entries := by
  intro heq
  have hn : n < w.log.length := hnk.trans_le hk
  obtain ⟨parsed, m, h, hmade⟩ := hI.made n _ (List.getElem?_eq_getElem hn)
  obtain ⟨e, rest, hfirst, _⟩ := booked_first hmade.booked hmade.valid
  have hlen := congrArg List.length heq
  rw [dbAt_split w (Nat.succ_le_of_lt hnk), dbAt_succ hn, hfirst] at hlen
  simp at hlen

/-- A session whose hash is the head of some first rows of the chain has seen the whole chain, when
    no two rows of the table follow one hash. -/
theorem saw_all {k : Nat} (hk : k < w.log.length)
    (hchained : Chained digest salt (w.dbAt k).entries)
    (hprevs : (w.db.entries.map (·.prevHash)).Nodup) {parsed : List ParsedEntry} {m : Nat}
    {h : String} (hmade : Made digest salt calls w k (w.log[k]) parsed m h) {seen : List EntryRow}
    (hseen : seen <+: (w.dbAt k).entries)
    (hh : h = entriesHead genesisHash (seen.map (·.record))) : (w.dbAt k).entries = seen := by
  obtain ⟨more, hmore⟩ := hseen
  cases more with
  | nil => rw [← hmore, List.append_nil]
  | cons y rest =>
    obtain ⟨e, rest', hfirst, he⟩ := booked_first hmade.booked hmade.valid
    have hlinked := ((verifyRows_ok_iff _).mp hchained.verifies).1
    rw [← hmore, List.map_append, List.map_cons] at hlinked
    have hy : y.prevHash = h := by
      obtain ⟨_, hy, _⟩ := linkedFrom_append.mp hlinked
      exact hy.trans hh.symm
    rw [← dbAt_length, dbAt_split w (Nat.succ_le_of_lt hk), dbAt_succ hk, hfirst, ← hmore] at hprevs
    simp [hy, he, List.nodup_append] at hprevs

/-- **A commit on a verified table was serial.** -/
theorem serialAt_of_prevs (hI : PoolInv digest salt calls w) {k : Nat} (hk : k < w.log.length)
    (hchained : Chained digest salt (w.dbAt k).entries)
    (hprevs : (w.db.entries.map (·.prevHash)).Nodup) : SerialAt w k (w.log[k]) := by
  obtain ⟨parsed, m, h, hmade⟩ := hI.made k _ (List.getElem?_eq_getElem hk)
  obtain ⟨r, hr, hrk, hh, hfound⟩ := hmade.head
  refine ⟨r, hr, ?_⟩
  rcases hfound with hnone | hlast
  · rw [hnone] at hh
    have hempty := saw_all hk hchained hprevs hmade List.nil_prefix hh
    rcases Nat.eq_zero_or_pos k with rfl | hpos
    · rw [hnone]
      exact ⟨Nat.le_zero.mp hrk, hempty⟩
    · have hmore := dbAt_split w (Nat.zero_le k)
      rw [hempty] at hmore
      have hzero := (List.append_eq_nil_iff.mp hmore.symm).1
      exact absurd (hempty.trans hzero.symm) (dbAt_entries_ne hI hpos hk.le)
  · have hsplit := dbAt_split w hrk
    have hincreasing : (w.dbAt r.committed).entries.Pairwise
        fun a b => a.sequenceNumber < b.sequenceNumber := by
      have hall := hchained.increasing
      rw [hsplit] at hall
      exact (List.pairwise_append.mp hall).1
    rw [isLastHash_head hincreasing hlast] at hh
    have hall := saw_all hk hchained hprevs hmade ⟨_, hsplit.symm⟩ hh
    rcases Nat.lt_or_eq_of_le hrk with hlt | rfl
    · exact absurd hall (dbAt_entries_ne hI hlt hk.le)
    · exact ⟨rfl, hlast⟩

/-- No two rows of a table that verifies follow one hash. -/
theorem prevs_nodup {l rows : List EntryRow} (hr : Ordered l rows)
    (hd : DigestSound digest (hashInputs salt (l.map (·.record))))
    (hok : verifyRows digest salt (.ok rows) = .ok ()) : (l.map (·.prevHash)).Nodup := by
  obtain ⟨hlinked, hseals⟩ := (verifyRows_ok_iff rows).mp hok
  have hperm : (rows.map (·.record)).Perm (l.map (·.record)) := hr.1.map _
  have hinputs : DigestSound digest (hashInputs salt (rows.map (·.record))) :=
    hd.mono fun b hb => (hperm.filterMap _).subset hb
  have hboth : DigestSound digest (hashInputs salt (rows.map (·.record)) ++
      hashInputs salt (rows.map (·.record))) := hinputs.mono (by simp)
  have hnodup := linked_prevs_nodup hlinked (sealed_binds hboth hlinked hseals hlinked hseals)
    (sealed_avoids hinputs hseals)
  rw [List.map_map] at hnodup
  exact ((hr.1.map (·.prevHash)).nodup_iff).mp hnodup

end Runs

/-! ## 6. When the chain holds -/

/-- **The chain holds exactly when the commits are serial.** From tables that carry the chain, in
    every interleaving in which each transaction is committed on the rows its session read the last
    hash from, the sequence numbers are distinct and `verify_chain` accepts every successful read.
    In every other interleaving it refuses some read, unless the digest collides on the rows. -/
theorem posts_chained_iff (digest : ByteArray → String) (salt : String)
    (calls : Nat → PoolCall) (replica : Nat → Nat) (base : Tables) (inner : Nat → LedgerState)
    (hbase : Chained digest salt base.entries)
    (c : Config World Nat Stmt Reply (Except PostError (PostingResponse × Bool)))
    (h : Interleaved digest salt calls replica base inner c) :
    (Serial c.state → (c.state.db.entries.map (·.sequenceNumber)).Nodup ∧
      ∀ i rows w', Exec replica i .selectEntries c.state (.ok rows) w' →
        verifyRows digest salt (.ok rows) = .ok ()) ∧
    (DigestSound digest (hashInputs salt (c.state.db.entries.map (·.record))) →
      (∀ i rows w', Exec replica i .selectEntries c.state (.ok rows) w' →
        verifyRows digest salt (.ok rows) = .ok ()) → Serial c.state) := by
  obtain ⟨hI, _⟩ := interleaved_sound h
  rw [← interleaved_base h] at hbase
  refine ⟨fun hs => ?_, fun hd hok k => ?_⟩
  · have hchained := chained_dbAt hI hbase _ le_rfl fun k hk _ => hs k hk
    rw [dbAt_length] at hchained
    refine ⟨List.pairwise_map.mpr (hchained.increasing.imp fun hlt => Nat.ne_of_lt hlt),
      fun i rows w' he => hchained.read (he.2 rows rfl)⟩
  · have hordered := bySequence_ordered c.state.db.entries
    have hprevs := prevs_nodup hordered hd (hok 0 _ _ ⟨rfl, answers_ok hordered⟩)
    induction k using Nat.strongRecOn with
    | ind k ih =>
      intro hk
      have hchained := chained_dbAt hI hbase k hk.le fun j hj hjk => ih j hjk hj
      exact serialAt_of_prevs hI hk hchained hprevs

/-! ## 7. Two calls, one after the other and side by side -/

/-- Two calls with fresh posting ids of their own, on two replicas. -/
def sampleTwo (i : Nat) : PoolCall where
  sup := if i = 0 then sampleSupply else sampleSupply2
  sink := false
  req := if i = 0 then sampleRequest else { sampleRequest with postingId := "bal2" }

/-- The two calls in the given order of statements. -/
def sampleInterleaved (order : List Nat) :
    Config World Nat Stmt Reply (Except PostError (PostingResponse × Bool)) :=
  runSchedule (exec id) order
    (startCalls plainDigest sampleSalt sampleTwo (World.start sampleTables fun _ => .new))

theorem sampleInterleaved_reach (order : List Nat) : Interleaved plainDigest sampleSalt sampleTwo id
    sampleTables (fun _ => .new) (sampleInterleaved order) :=
  reach_runSchedule (exec_sound id) _ _

def sampleSerial : Config World Nat Stmt Reply (Except PostError (PostingResponse × Bool)) :=
  sampleInterleaved (List.replicate 15 0 ++ List.replicate 15 1)

theorem sampleSerial_serial : Serial sampleSerial.state := by
  have hlength : sampleSerial.state.log.length = 2 := rfl
  intro k hk
  rw [hlength] at hk
  interval_cases k
  · exact SerialAt.of_read (by with_unfolding_all rfl)
  · exact SerialAt.of_read (by with_unfolding_all rfl)

theorem posts_chained_iff_sample :
    sampleSerial.state.db.entries.map (·.sequenceNumber) = [1, 2, 3, 4] ∧
    ∀ i rows w', Exec id i .selectEntries sampleSerial.state (.ok rows) w' →
      verifyRows plainDigest sampleSalt (.ok rows) = .ok () :=
  ⟨by decide +kernel, ((posts_chained_iff plainDigest sampleSalt sampleTwo id sampleTables
    (fun _ => .new) chained_nil sampleSerial (sampleInterleaved_reach _)).1 sampleSerial_serial).2⟩

/-- The two calls take turns, statement by statement. -/
def sampleSideBySide : Config World Nat Stmt Reply (Except PostError (PostingResponse × Bool)) :=
  sampleInterleaved (List.replicate 15 [0, 1]).flatten

/-- The call has recorded a posting of its own and returned `Ok`. -/
def recordedOk (r : Option (Except PostError (PostingResponse × Bool))) : Bool :=
  match r with
  | some (.ok (_, false)) => true
  | _ => false

/-- Rows of which two follow the genesis mark do not verify in any order. -/
theorem two_starts_refused {l rows : List EntryRow}
    (hl : 2 ≤ (l.map (·.prevHash)).count genesisHash) (hr : Ordered l rows) :
    verifyRows plainDigest sampleSalt (.ok rows) ≠ .ok () := by
  intro hok
  obtain ⟨hlinked, hseals⟩ := (verifyRows_ok_iff rows).mp hok
  have havoids : Avoids EntryRecord.thisHash genesisHash (rows.map (·.record)) := by
    intro e he
    obtain ⟨c, _, ht⟩ := hseals e he
    rw [ht]
    exact plainDigest_ne_genesis _
  have honce := linked_starts_once hlinked havoids
  rw [List.map_map] at honce
  have hcount := (hr.1.map (·.prevHash)).count_eq genesisHash
  have hsame : (rows.map (EntryRecord.prevHash ∘ (·.record))).count genesisHash =
      (rows.map (·.prevHash)).count genesisHash := rfl
  omega

/-- **Two calls with distinct fresh posting ids that run side by side both commit and return `Ok`;
    they book the same sequence numbers, and `verify_chain` refuses every read of the rows.** -/
theorem concurrent_posts_break_chain :
    Interleaved plainDigest sampleSalt sampleTwo id sampleTables (fun _ => .new) sampleSideBySide ∧
    (sampleTwo 0).req.postingId ≠ (sampleTwo 1).req.postingId ∧
    (∀ i ∈ [0, 1], recordedOk (sampleSideBySide.threads i).result = true) ∧
    ¬ (sampleSideBySide.state.db.entries.map (·.sequenceNumber)).Nodup ∧
    (∃ rows, Exec id 2 .selectEntries sampleSideBySide.state (.ok rows) sampleSideBySide.state) ∧
    ∀ rows w', Exec id 2 .selectEntries sampleSideBySide.state (.ok rows) w' →
      verifyRows plainDigest sampleSalt (.ok rows) ≠ .ok () := by
  have hnumbers : sampleSideBySide.state.db.entries.map (·.sequenceNumber) = [1, 2, 1, 2] := by
    decide +kernel
  have hstarts : (sampleSideBySide.state.db.entries.map (·.prevHash)).count genesisHash = 2 := by
    decide +kernel
  refine ⟨sampleInterleaved_reach _, by decide, by decide +kernel, ?_,
    ⟨_, rfl, answers_ok (bySequence_ordered _)⟩, fun rows w' he => ?_⟩
  · rw [hnumbers]
    decide
  · exact two_starts_refused hstarts.ge (he.2 rows rfl)

end LedgerAccounting
