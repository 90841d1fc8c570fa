/-
  File:      LedgerAccounting/Memory/Idempotency.lean
  Subject:   Posting twice: a recorded posting answers every later submission of its request, and
             no submission of its id writes anything.
-/
import LedgerAccounting.Run

namespace LedgerAccounting

variable (digest : ByteArray → String) (salt : String)

/-- A request whose posting id is recorded leaves the state as it is, whatever its body. -/
theorem post_recorded_keeps {state : LedgerState} {req : PostingRequest} {rec : PostingRecord}
    (hr : state.postings.lookup req.postingId = some rec) (sup : Supply) :
    (post digest salt sup req state).2 = state := by
  rcases post_cases digest salt sup req state with
    ⟨e, he⟩ | ⟨parsed, rec', _, _, hrec⟩ | ⟨parsed, ha⟩
  · rw [he]
  · rw [hrec]
  · rw [ha.fresh] at hr
    cases hr

/-- The record of a fresh posting answers as the fresh posting did. -/
theorem record_response (state : LedgerState) (req : PostingRequest) (parsed : List ParsedEntry)
    (sup : Supply) :
    ∃ rec, (state.record sup req (createEntries digest salt sup state req.postingId
        parsed)).postings.lookup req.postingId = some rec ∧
      rec.response = ⟨req.postingId, "POSTED",
        (createEntries digest salt sup state req.postingId parsed).entryIds,
        (createEntries digest salt sup state req.postingId parsed).prevHash⟩ := by
  refine ⟨_, record_lookup_self state sup req _, ?_⟩
  have hspec := createEntries_spec digest salt sup state req.postingId parsed
  unfold PostingRecord.response
  rw [hspec.entryIds]

/-- **Idempotent posting over whole runs**: a posting accepted once is, after any further calls,
    answered again with the same id, status, entry ids and head hash; and no request with its id
    changes the state. -/
theorem post_idempotent (state : LedgerState) (req : PostingRequest) (sup : Supply)
    (r : PostingResponse) (h : (post digest salt sup req state).1 = .ok (r, false))
    (calls : List Call) (sup' : Supply) :
    let later := runFrom digest salt calls (post digest salt sup req state).2
    post digest salt sup' req later = (.ok (r, true), later) ∧
      ∀ req' sup'', req'.postingId = req.postingId →
        (post digest salt sup'' req' later).2 = later := by
  intro later
  obtain ⟨parsed, ha⟩ := accepts_of_fresh digest salt sup h
  have hpost := post_accepted digest salt sup ha
  obtain ⟨rec, hrec, hresp⟩ := record_response digest salt state req parsed sup
  have hr : r = rec.response := by
    rw [hpost] at h
    cases h
    exact hresp.symm
  have hlater : later.postings.lookup req.postingId = some rec := by
    have h0 : (post digest salt sup req state).2.postings.lookup req.postingId = some rec := by
      rw [hpost]
      exact hrec
    exact runFrom_posting calls h0
  refine ⟨?_, fun req' sup'' hid => ?_⟩
  · rw [hr]
    exact post_replayed digest salt sup' ha.valid hlater
  · rw [← hid] at hlater
    exact post_recorded_keeps digest salt hlater sup''

/-- The sample posting, submitted again after a snapshot and after the same id with no entries. -/
theorem post_idempotent_sample :
    let later := runFrom sampleDigest sampleSalt
      [.writeSnapshots sampleSupply, .post ⟨"bal1", [], none, none⟩ sampleSupply]
      (post sampleDigest sampleSalt sampleSupply sampleRequest sampleOpen).2
    post sampleDigest sampleSalt sampleSupply sampleRequest later =
        (.ok (sampleResponse, true), later) ∧
      ∀ req' sup'', req'.postingId = sampleRequest.postingId →
        (post sampleDigest sampleSalt sup'' req' later).2 = later :=
  post_idempotent sampleDigest sampleSalt sampleOpen sampleRequest sampleSupply sampleResponse
    sample_post _ sampleSupply

end LedgerAccounting
