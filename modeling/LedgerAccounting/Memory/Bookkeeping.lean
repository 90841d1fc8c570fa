/-
  File:      LedgerAccounting/Memory/Bookkeeping.lean
  Subject:   The redundant pieces of the in-memory state agree in every reachable state: entries,
             sequence counter, postings, hash-chain anchors, audit events and global head.

  `post_via_memory` updates the pieces one after another. All of them are functions of one list,
  the records in the order they were booked (`Bookkeeping`); a fresh posting appends its record to
  that list, and every other call leaves it.
-/
import LedgerAccounting.Run

namespace LedgerAccounting

open Linked Runs

/-! ## 1. The pieces as functions of the booked records -/

/-- The anchor written with a record. -/
def PostingRecord.anchor (rec : PostingRecord) : HashChainAnchor where
  postingId := rec.postingId
  headHash := rec.hashHead
  globalSequenceHead := rec.hashHead
  createdAt := rec.createdAt

/-- What an audit event says of its posting. -/
def AuditEvent.about (ev : AuditEvent) : String × List String × String :=
  (ev.postingId, ev.entryIds, ev.hashHead)

/-- What the audit event of a record says. -/
def PostingRecord.about (rec : PostingRecord) : String × List String × String :=
  (rec.postingId, rec.entries.map (·.entryId), rec.hashHead)

/-- The record the loop `l` leaves of the fresh posting `req`. -/
def Loop.posted (sup : Supply) (req : PostingRequest) (l : Loop) : PostingRecord where
  postingId := req.postingId
  refTxId := req.refTxId
  memo := req.memo
  status := "POSTED"
  hashHead := l.prevHash
  entries := l.createdEntries
  createdAt := sup.nowIso 0

/-- What holds of one booked record: it has entries, they carry its posting id, and its head is
    the hash of the last one. -/
structure RunOf (rec : PostingRecord) : Prop where
  owned : ∀ e ∈ rec.entries, e.postingId = rec.postingId
  last : ∃ e, rec.entries.getLast? = some e ∧ rec.hashHead = e.thisHash

/-- `recs` are the records of the state in the order they were booked, and every piece of the
    state follows from them. -/
structure Bookkeeping (state : LedgerState) (recs : List PostingRecord) : Prop where
  keys : (recs.map (·.postingId)).Nodup
  recorded : ∀ id rec, state.postings.lookup id = some rec ↔ rec ∈ recs ∧ rec.postingId = id
  runs : ∀ rec ∈ recs, RunOf rec
  entries : state.entries = recs.flatMap (·.entries)
  numbers : state.entries.map (·.sequenceNumber) = List.range' 1 state.sequence
  anchors : ∀ id, state.hashChainAnchors.lookup id =
    (state.postings.lookup id).map PostingRecord.anchor
  events : state.auditEvents.map AuditEvent.about = recs.map PostingRecord.about
  head : state.globalChainHead = (state.entries.getLast?.map (·.thisHash)).getD genesisHash

theorem bookkeeping_new : Bookkeeping .new [] where
  keys := List.nodup_nil
  recorded _ _ := by simp [LedgerState.new]
  runs _ h := absurd h List.not_mem_nil
  entries := rfl
  numbers := rfl
  anchors _ := rfl
  events := rfl
  head := rfl

section Bookkeeping

variable {digest : ByteArray → String} {salt : String} {state : LedgerState}
  {recs : List PostingRecord}

/-- No booked record has an id that is not recorded. -/
theorem Bookkeeping.not_mem (h : Bookkeeping state recs) {id : String}
    (hid : state.postings.lookup id = none) : id ∉ recs.map (·.postingId) := by
  intro hmem
  obtain ⟨rec, hrec, heq⟩ := List.mem_map.mp hmem
  have hl := (h.recorded id rec).mpr ⟨hrec, heq⟩
  rw [hid] at hl
  cases hl

theorem Bookkeeping.length (h : Bookkeeping state recs) :
    state.entries.length = state.sequence := by
  have hlen := congrArg List.length h.numbers
  simpa using hlen

/-! ## 2. One fresh posting -/

theorem record_postings (sup : Supply) (req : PostingRequest) (l : Loop) :
    (state.record sup req l).postings = state.postings.insert req.postingId (l.posted sup req) :=
  rfl

theorem record_anchors (sup : Supply) (req : PostingRequest) (l : Loop) :
    (state.record sup req l).hashChainAnchors =
      state.hashChainAnchors.insert req.postingId (l.posted sup req).anchor :=
  rfl

/-- The loop over the parsed entries leaves the run of its posting. -/
theorem posted_runOf {now : String} {start : Nat} {head : String} {sup : Supply}
    {req : PostingRequest} {parsed : List ParsedEntry} {l : Loop} (hne : parsed ≠ [])
    (hspec : LoopSpec digest salt now req.postingId start head sup parsed l) :
    RunOf (l.posted sup req) where
  owned := by
    intro e he
    obtain ⟨p, _, _, _, _, rfl⟩ := forall₂_mem_right hspec.made he
    rfl
  last := by
    have hcreated : l.createdEntries ≠ [] := by
      intro hnil
      have hlen := hspec.made.length_eq
      rw [hnil] at hlen
      exact hne (List.length_eq_zero_iff.mp hlen)
    refine ⟨l.createdEntries.getLast hcreated, List.getLast?_eq_getLast_of_ne_nil hcreated, ?_⟩
    show l.prevHash = _
    rw [hspec.prevHash, entriesHead, headFrom_eq_getLast,
      List.getLast?_eq_getLast_of_ne_nil hcreated]
    rfl

/-- **A fresh posting appends its record, and every piece of the state follows.** -/
theorem bookkeeping_record (h : Bookkeeping state recs) (sup : Supply) {req : PostingRequest}
    {parsed : List ParsedEntry} (ha : Accepts state req parsed) :
    Bookkeeping (state.record sup req (createEntries digest salt sup state req.postingId parsed))
      (recs ++ [(createEntries digest salt sup state req.postingId parsed).posted sup req]) := by
  have hspec := createEntries_spec digest salt sup state req.postingId parsed
  have hvalid := ha.valid
  have hne : parsed ≠ [] := by
    intro hnil
    have hlen := hvalid.parses.length_eq
    rw [hnil] at hlen
    exact hvalid.nonempty (List.length_eq_zero_iff.mp hlen)
  have hrun := posted_runOf hne hspec
  have hfresh := h.not_mem ha.fresh
  generalize createEntries digest salt sup state req.postingId parsed = l at hspec hrun
  have hseq : (state.record sup req l).sequence = state.sequence + parsed.length := hspec.sequence
  refine ⟨?_, fun id rec => ?_, fun rec hrec => ?_, ?_, ?_, fun id => ?_, ?_, ?_⟩
  · rw [List.map_append, List.map_singleton]
    exact List.nodup_append_comm.mp (List.nodup_cons.mpr ⟨hfresh, h.keys⟩)
  · rw [record_postings, List.mem_append, List.mem_singleton]
    by_cases hid : id = req.postingId
    · subst hid
      rw [AList.lookup_insert]
      constructor
      · intro heq
        cases heq
        exact ⟨Or.inr rfl, rfl⟩
      · intro hrec
        obtain ⟨hmem | rfl, hkey⟩ := hrec
        · exact absurd (hkey ▸ List.mem_map_of_mem hmem) hfresh
        · rfl
    · rw [AList.lookup_insert_ne hid, h.recorded]
      constructor
      · intro hrec
        exact ⟨Or.inl hrec.1, hrec.2⟩
      · intro hrec
        obtain ⟨hmem | rfl, hkey⟩ := hrec
        · exact ⟨hmem, hkey⟩
        · exact absurd hkey.symm hid
  · rcases List.mem_append.mp hrec with hmem | hmem
    · exact h.runs rec hmem
    · rw [List.mem_singleton.mp hmem]
      exact hrun
  · rw [record_entries, h.entries, List.flatMap_append, List.flatMap_singleton]
    rfl
  · rw [record_entries, List.map_append, h.numbers, hspec.numbers, hseq,
      List.range'_append_1.symm, Nat.add_comm 1 state.sequence]
  · rw [record_postings, record_anchors]
    by_cases hid : id = req.postingId
    · subst hid
      rw [AList.lookup_insert, AList.lookup_insert]
      rfl
    · rw [AList.lookup_insert_ne hid, AList.lookup_insert_ne hid, h.anchors]
  · show (state.auditEvents ++ [_]).map AuditEvent.about = _
    rw [List.map_append, List.map_append, h.events, List.map_singleton, List.map_singleton]
    simp only [AuditEvent.about, PostingRecord.about, Loop.posted, hspec.entryIds]
  · obtain ⟨e, hlast, hhead⟩ := hrun.last
    have hlast' : l.createdEntries.getLast? = some e := hlast
    rw [record_globalChainHead, record_entries, List.getLast?_append, hlast']
    exact hhead

theorem bookkeeping_transition {s s' : LedgerState} (h : Bookkeeping s recs)
    (ht : Transition digest salt s s') : ∃ recs', Bookkeeping s' recs' := by
  cases ht with
  | keep => exact ⟨recs, h⟩
  | account => exact ⟨recs, ⟨h.keys, h.recorded, h.runs, h.entries, h.numbers, h.anchors, h.events,
      h.head⟩⟩
  | snapshots => exact ⟨recs, ⟨h.keys, h.recorded, h.runs, h.entries, h.numbers, h.anchors,
      h.events, h.head⟩⟩
  | posting sup req parsed accepted => exact ⟨_, bookkeeping_record h sup accepted⟩

/-- **The pieces of every reachable state follow from its booked records.** -/
theorem reachable_bookkeeping (h : Reachable digest salt state) :
    ∃ recs, Bookkeeping state recs :=
  reachable_invariant (I := fun s => ∃ recs, Bookkeeping s recs) ⟨[], bookkeeping_new⟩
    (fun _ _ hs ht => bookkeeping_transition hs.choose_spec ht) h

end Bookkeeping

/-! ## 3. The bookkeeping invariant -/

/-- **The redundant pieces of the state agree after every run.** In order: the entries are
    numbered `1..n` with `n` the counter and the length of the list; the entries are the runs of
    the recorded postings, laid end to end, one for each key; the audit events are one for each of
    these runs; anchors and postings have the same keys and all four heads of a key are the hash
    of its last entry; and the global head is the hash of the last entry of all. -/
theorem bookkeeping_invariant (digest : ByteArray → String) (salt : String) (calls : List Call) :
    let state := runNew digest salt calls
    (state.entries.map (·.sequenceNumber) = List.range' 1 state.sequence ∧
      state.sequence = state.entries.length) ∧
    (∃ recs : List PostingRecord, (recs.map (·.postingId)).Nodup ∧
      (∀ id rec, getPosting state id = some rec ↔ rec ∈ recs ∧ rec.postingId = id) ∧
      state.entries = recs.flatMap (·.entries) ∧
      (∀ rec ∈ recs, rec.entries ≠ [] ∧ ∀ e ∈ rec.entries, e.postingId = rec.postingId) ∧
      state.auditEvents.map (fun ev => (ev.postingId, ev.entryIds, ev.hashHead)) =
        recs.map fun rec => (rec.postingId, rec.entries.map (·.entryId), rec.hashHead)) ∧
    (∀ id, (getPosting state id).isSome = (hashChainAnchor state id).isSome) ∧
    (∀ id rec, getPosting state id = some rec → ∃ anchor e,
      hashChainAnchor state id = some anchor ∧ anchor.postingId = id ∧
        rec.entries.getLast? = some e ∧ rec.hashHead = e.thisHash ∧
        anchor.headHash = e.thisHash ∧ anchor.globalSequenceHead = e.thisHash) ∧
    globalChainHead state = (state.entries.getLast?.map (·.thisHash)).getD genesisHash := by
  intro state
  have hr : Reachable digest salt state := ⟨calls, rfl⟩
  obtain ⟨recs, h⟩ := reachable_bookkeeping hr
  refine ⟨⟨h.numbers, h.length.symm⟩, ⟨recs, h.keys, h.recorded, h.entries, fun rec hrec => ?_,
    h.events⟩, fun id => ?_, fun id rec hl => ?_, h.head⟩
  · refine ⟨fun hnil => ?_, (h.runs rec hrec).owned⟩
    obtain ⟨e, hlast, _⟩ := (h.runs rec hrec).last
    rw [hnil] at hlast
    cases hlast
  · rw [hashChainAnchor, h.anchors, Option.isSome_map]
    rfl
  · obtain ⟨hmem, hkey⟩ := (h.recorded id rec).mp hl
    obtain ⟨e, hlast, hhead⟩ := (h.runs rec hmem).last
    have hanchor : hashChainAnchor state id = some rec.anchor := by
      rw [hashChainAnchor, h.anchors, show state.postings.lookup id = some rec from hl]
      rfl
    exact ⟨rec.anchor, e, hanchor, hkey, hlast, hhead, hhead, hhead⟩

end LedgerAccounting
