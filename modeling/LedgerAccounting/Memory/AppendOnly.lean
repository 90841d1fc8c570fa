/-
  File:      LedgerAccounting/Memory/AppendOnly.lean
  Subject:   The in-memory ledger is append-only: what a state holds, every later state holds
             unchanged, and a fresh posting appends the movement it was asked for.
-/
import LedgerAccounting.Memory.Bookkeeping

namespace LedgerAccounting

open Runs

/-! ## 1. States that extend a state -/

/-- `s'` starts with the entries of `s` and holds every account, posting and anchor of `s`
    unchanged. -/
structure Extends (s s' : LedgerState) : Prop where
  entries : s.entries <+: s'.entries
  accounts : ∀ id acc, getAccount s id = some acc → getAccount s' id = some acc
  postings : ∀ id rec, getPosting s id = some rec → getPosting s' id = some rec
  anchors : ∀ id anchor, hashChainAnchor s id = some anchor → hashChainAnchor s' id = some anchor

theorem Extends.refl (s : LedgerState) : Extends s s where
  entries := List.prefix_rfl
  accounts _ _ h := h
  postings _ _ h := h
  anchors _ _ h := h

theorem Extends.trans {s s' s'' : LedgerState} (h : Extends s s') (h' : Extends s' s'') :
    Extends s s'' where
  entries := h.entries.trans h'.entries
  accounts id acc ha := h'.accounts id acc (h.accounts id acc ha)
  postings id rec hr := h'.postings id rec (h.postings id rec hr)
  anchors id anchor ha := h'.anchors id anchor (h.anchors id anchor ha)

section Extends

variable {digest : ByteArray → String} {salt : String}

/-- A transition extends a state whose anchors are those of its postings: the three maps are
    written at new keys only. -/
theorem transition_extends {s s' : LedgerState} {recs : List PostingRecord}
    (h : Bookkeeping s recs) (ht : Transition digest salt s s') : Extends s s' where
  entries := transition_entries ht
  accounts _ _ := transition_account ht
  postings _ _ := transition_posting ht
  anchors := by
    intro id anchor ha
    cases ht with
    | keep => exact ha
    | account => exact ha
    | snapshots => exact ha
    | posting sup req parsed accepted =>
      have hne : id ≠ req.postingId := by
        intro heq
        rw [hashChainAnchor, h.anchors, heq, accepted.fresh] at ha
        cases ha
      rw [hashChainAnchor, record_anchors, AList.lookup_insert_ne hne]
      exact ha

/-- **Every further run extends the state.** -/
theorem runFrom_extends {s : LedgerState} (hs : Reachable digest salt s) (calls : List Call) :
    Extends s (runFrom digest salt calls s) := by
  induction calls using List.reverseRecOn with
  | nil => exact .refl s
  | append_singleton calls c ih =>
    obtain ⟨recs, h⟩ := reachable_bookkeeping (hs.runFrom calls)
    have ht : Transition digest salt (runFrom digest salt calls s)
        (apply digest salt c (runFrom digest salt calls s)).2 := apply_transition c _
    rw [runFrom, run_concat]
    exact ih.trans (transition_extends h ht)

/-! ## 2. The movement of a request -/

/-- The record books what the request entry says. -/
def EntryInput.BookedAs (e : EntryInput) (rec : EntryRecord) : Prop :=
  rec.accountId = e.accountId ∧ rec.direction = e.direction ∧ rec.amount = e.amount ∧
    rec.asset = e.asset

/-- The records are, in order, what the request entries say. -/
def PostingRequest.BookedAs (req : PostingRequest) (created : List EntryRecord) : Prop :=
  List.Forall₂ EntryInput.BookedAs req.entries created

/-- The entries created for a valid request book its movement. -/
theorem made_bookedAs {now : String} {req : PostingRequest} {parsed : List ParsedEntry}
    {created : List EntryRecord} (h : ValidRequest req parsed)
    (hm : List.Forall₂ (MadeFrom digest salt now req.postingId) parsed created) :
    req.BookedAs created := by
  refine forall₂_comp (fun e p rec hp hrec => ?_) h.parses hm
  obtain ⟨hd, ha, hn, hs⟩ := (parseEntry_ok_iff e p).mp hp
  obtain ⟨_, _, _, rfl⟩ := hrec
  exact ⟨ha, hd.symm, hn, hs⟩

/-- The entries of an accepted posting book its movement. -/
theorem createEntries_bookedAs (sup : Supply) {state : LedgerState} {req : PostingRequest}
    {parsed : List ParsedEntry} (ha : Accepts state req parsed) :
    req.BookedAs (createEntries digest salt sup state req.postingId parsed).createdEntries :=
  made_bookedAs (ha.valid)
    (createEntries_spec digest salt sup state req.postingId parsed).made

end Extends

/-! ## 3. The append-only ledger -/

/-- **The ledger is append-only**: after any run, every further run extends the state, and a
    posting answered afresh appends exactly one record for each entry of the request, in order. -/
theorem append_only (digest : ByteArray → String) (salt : String) (calls : List Call) :
    let state := runNew digest salt calls
    (∀ further, Extends state (runFrom digest salt further state)) ∧
      ∀ sup req r, (post digest salt sup req state).1 = .ok (r, false) →
        ∃ created, (post digest salt sup req state).2.entries = state.entries ++ created ∧
          List.Forall₂ (fun e rec => rec.accountId = e.accountId ∧ rec.direction = e.direction ∧
            rec.amount = e.amount ∧ rec.asset = e.asset) req.entries created := by
  intro state
  refine ⟨runFrom_extends ⟨calls, rfl⟩, fun sup req r h => ?_⟩
  obtain ⟨parsed, ha⟩ := accepts_of_fresh digest salt sup h
  rw [post_accepted digest salt sup ha]
  exact ⟨_, rfl, createEntries_bookedAs sup ha⟩

end LedgerAccounting
