/-
  File:      LedgerAccounting/Memory/Movement.lean
  Subject:   Whose movement a successful `post` leaves recorded under its posting id.

  `post` knows a posting by its id alone: a request whose id is taken is answered with the posting
  there is, whatever its own entries say. So a fresh answer vouches for the movement of the
  request, and a replayed one for the movement of the first request accepted under that id.
-/
import LedgerAccounting.Memory.AppendOnly
import LedgerAccounting.Treasury

namespace LedgerAccounting

open Runs

/-! ## 1. Where a recorded posting comes from -/

/-- One record books the movement of requests with the same entries only. -/
theorem bookedAs_entries {req req' : PostingRequest} {created : List EntryRecord}
    (h : req.BookedAs created) : req'.BookedAs created ↔ req'.entries = req.entries := by
  constructor
  · intro h'
    have hsame : List.Forall₂ (fun a b : EntryInput => a = b) req'.entries req.entries := by
      refine forall₂_comp (fun a rec b ha hb => ?_) h' h.flip
      obtain ⟨a1, a2, a3, a4⟩ := ha
      obtain ⟨b1, b2, b3, b4⟩ := hb
      cases a
      cases b
      simp_all
    exact List.forall₂_eq_eq_eq ▸ hsame
  · intro heq
    unfold PostingRequest.BookedAs
    rw [heq]
    exact h

section Origin

variable (digest : ByteArray → String) (salt : String)

/-- The posting `rec` was recorded in the run `calls` for `req`, which booked its movement. -/
def RecordedFor (calls : List Call) (req : PostingRequest) (rec : PostingRecord) : Prop :=
  ∃ before sup after r, calls = before ++ .post req sup :: after ∧
    (post digest salt sup req (runNew digest salt before)).1 = .ok (r, false) ∧
    req.BookedAs rec.entries

variable {digest salt}

/-- The posting a call finds recorded under an id was recorded before it or by it. -/
theorem apply_recorded {s : LedgerState} {c : Call} {id : String} {rec : PostingRecord}
    (h : (apply digest salt c s).2.postings.lookup id = some rec) :
    s.postings.lookup id = some rec ∨ ∃ req sup r, c = .post req sup ∧ req.postingId = id ∧
      (post digest salt sup req s).1 = .ok (r, false) ∧ req.BookedAs rec.entries := by
  cases c with
  | createAccount req sup =>
    rcases createAccount_cases sup req s with ⟨e, he⟩ | ⟨_, _, _, _, _, hc⟩
    · simp only [apply, he] at h
      exact Or.inl h
    · simp only [apply, hc] at h
      exact Or.inl h
  | writeSnapshots sup => exact Or.inl h
  | post req sup =>
    rcases post_cases digest salt sup req s with ⟨e, he⟩ | ⟨_, _, _, _, hp⟩ | ⟨parsed, ha⟩
    · simp only [apply, he] at h
      exact Or.inl h
    · simp only [apply, hp] at h
      exact Or.inl h
    · have hpost := post_accepted digest salt sup ha
      simp only [apply, hpost] at h
      by_cases hid : id = req.postingId
      · subst hid
        rw [record_lookup_self] at h
        refine Or.inr ⟨req, sup, _, rfl, rfl, by rw [hpost], ?_⟩
        rw [← Option.some.inj h]
        exact createEntries_bookedAs sup ha
      · rw [record_lookup_ne sup req _ hid] at h
        exact Or.inl h

/-- **Every recorded posting is the movement of a request of the run.** -/
theorem recorded_origin (calls : List Call) {id : String} {rec : PostingRecord}
    (h : getPosting (runNew digest salt calls) id = some rec) :
    ∃ req, req.postingId = id ∧ RecordedFor digest salt calls req rec := by
  induction calls using List.reverseRecOn with
  | nil => cases h
  | append_singleton calls c ih =>
    rw [runNew, runFrom, run_concat] at h
    rcases apply_recorded h with hold | ⟨req, sup, r, rfl, hid, hfresh, hbooked⟩
    · obtain ⟨req, hid, before, sup, after, r, rfl, hrest⟩ := ih hold
      exact ⟨req, hid, before, sup, after ++ [c], r, by simp, hrest⟩
    · exact ⟨req, hid, calls, sup, [], r, rfl, hfresh, hbooked⟩

/-! ## 2. What a success vouches for -/

variable (digest salt)

/-- After `state'` the posting under the id of `req` is its own movement, or nothing was written
    and it is the movement of an earlier request of the run under that id with other entries. -/
def OwnOrEarlier (calls : List Call) (req : PostingRequest) (state' : LedgerState) : Prop :=
  ∃ rec, getPosting state' req.postingId = some rec ∧
    (req.BookedAs rec.entries ∨
      ¬ req.BookedAs rec.entries ∧ state' = runNew digest salt calls ∧
        ∃ earlier, earlier.postingId = req.postingId ∧ earlier.entries ≠ req.entries ∧
          RecordedFor digest salt calls earlier rec)

variable {digest salt}

/-- A fresh success leaves the movement of the request. -/
theorem fresh_booked {state : LedgerState} {sup : Supply} {req : PostingRequest}
    {r : PostingResponse} (h : (post digest salt sup req state).1 = .ok (r, false)) :
    ∃ rec, getPosting (post digest salt sup req state).2 req.postingId = some rec ∧
      req.BookedAs rec.entries := by
  obtain ⟨parsed, ha⟩ := accepts_of_fresh digest salt sup h
  rw [post_accepted digest salt sup ha]
  exact ⟨_, record_lookup_self state sup req _, createEntries_bookedAs sup ha⟩

/-- A replayed success leaves the state as it was, with a posting under the id. -/
theorem replayed_keeps {state : LedgerState} {sup : Supply} {req : PostingRequest}
    {r : PostingResponse} (h : (post digest salt sup req state).1 = .ok (r, true)) :
    (post digest salt sup req state).2 = state ∧
      ∃ rec, getPosting state req.postingId = some rec := by
  rcases post_cases digest salt sup req state with ⟨e, he⟩ | ⟨_, rec, _, hrec, hp⟩ | ⟨parsed, ha⟩
  · rw [he] at h
    cases h
  · rw [hp]
    exact ⟨rfl, rec, hrec⟩
  · rw [post_accepted digest salt sup ha] at h
    cases h

theorem ok_ownOrEarlier (calls : List Call) {sup : Supply} {req : PostingRequest}
    {r : PostingResponse} {replayed : Bool}
    (h : (post digest salt sup req (runNew digest salt calls)).1 = .ok (r, replayed)) :
    OwnOrEarlier digest salt calls req (post digest salt sup req (runNew digest salt calls)).2 := by
  cases replayed with
  | false =>
    obtain ⟨rec, hrec, hbooked⟩ := fresh_booked h
    exact ⟨rec, hrec, Or.inl hbooked⟩
  | true =>
    obtain ⟨hkeep, rec, hrec⟩ := replayed_keeps h
    obtain ⟨earlier, hid, horigin⟩ := recorded_origin calls hrec
    have hearlier : earlier.BookedAs rec.entries := by
      obtain ⟨_, _, _, _, _, _, hbooked⟩ := horigin
      exact hbooked
    rw [hkeep]
    refine ⟨rec, hrec, ?_⟩
    by_cases hsame : req.entries = earlier.entries
    · exact Or.inl ((bookedAs_entries hearlier).mpr hsame)
    · exact Or.inr ⟨fun hown => hsame ((bookedAs_entries hearlier).mp hown), rfl, earlier, hid,
        Ne.symm hsame, horigin⟩

end Origin

/-! ## 3. The movement under a posting id -/

/-- **Whose movement a success leaves**, after every run: a fresh answer, the movement of the
    request; a replayed one, nothing new, and the movement of the request of the run that was
    accepted under the id, so its own exactly when both have the same entries. What a hedge or a
    rebalancing that succeeds has recorded under its id is its own movement or, with nothing
    written, that of an earlier request under the same id with other entries. -/
theorem success_movement (digest : ByteArray → String) (salt : String) (calls : List Call) :
    let state := runNew digest salt calls
    (∀ sup req r, (post digest salt sup req state).1 = .ok (r, false) →
      ∃ rec, getPosting (post digest salt sup req state).2 req.postingId = some rec ∧
        req.BookedAs rec.entries) ∧
    (∀ sup req r, (post digest salt sup req state).1 = .ok (r, true) →
      (post digest salt sup req state).2 = state ∧
        ∃ rec earlier, getPosting state req.postingId = some rec ∧
          earlier.postingId = req.postingId ∧ RecordedFor digest salt calls earlier rec ∧
          (req.BookedAs rec.entries ↔ req.entries = earlier.entries)) ∧
    (∀ sup postingId treasuryAccount venueAccount asset amount,
      (hedgeEntry digest salt sup postingId treasuryAccount venueAccount asset amount state).1 =
          .ok () →
        OwnOrEarlier digest salt calls
          (hedgeRequest postingId treasuryAccount venueAccount asset amount)
          (hedgeEntry digest salt sup postingId treasuryAccount venueAccount asset amount
            state).2) ∧
    ∀ sup postingId fromAccount toAccount asset amount,
      (rebalance digest salt sup postingId fromAccount toAccount asset amount state).1 = .ok () →
        OwnOrEarlier digest salt calls
          (rebalanceRequest postingId fromAccount toAccount asset amount)
          (rebalance digest salt sup postingId fromAccount toAccount asset amount state).2 := by
  intro state
  have hsilent : ∀ sup req, (postSilently digest salt sup req state).1 = .ok () →
      OwnOrEarlier digest salt calls req (postSilently digest salt sup req state).2 := by
    intro sup req h
    obtain ⟨hstate, r, replayed, hok⟩ := postSilently_ok h
    rw [hstate]
    exact ok_ownOrEarlier calls hok
  refine ⟨fun sup req r => fresh_booked, fun sup req r h => ?_, fun sup _ _ _ _ _ => hsilent sup _,
    fun sup _ _ _ _ _ => hsilent sup _⟩
  obtain ⟨hkeep, rec, hrec⟩ := replayed_keeps h
  obtain ⟨earlier, hid, horigin⟩ := recorded_origin calls hrec
  refine ⟨hkeep, rec, earlier, hrec, hid, horigin, ?_⟩
  obtain ⟨_, _, _, _, _, _, hbooked⟩ := horigin
  exact bookedAs_entries hbooked

/-- **A success under a taken id vouches for somebody else's movement**: a hedge of 50 under the id
    of the sample posting of 100 succeeds, and what is recorded under the id is not its own. -/
theorem success_not_own :
    ¬ ∀ (digest : ByteArray → String) (salt : String) (state : LedgerState),
      Reachable digest salt state → ∀ sup req r replayed,
        (post digest salt sup req state).1 = .ok (r, replayed) →
          ∃ rec, getPosting (post digest salt sup req state).2 req.postingId = some rec ∧
            List.Forall₂ (fun e rec => rec.accountId = e.accountId ∧
              rec.direction = e.direction ∧ rec.amount = e.amount ∧ rec.asset = e.asset)
              req.entries rec.entries := by
  intro h
  have hok : (post sampleDigest sampleSalt sampleSupply (hedgeRequest "bal1" "uc" "op" "USD" 50)
      sampleState).1 = .ok (sampleResponse, true) := by decide +kernel
  obtain ⟨rec, hrec, hbooked⟩ := h sampleDigest sampleSalt sampleState sampleState_reachable
    sampleSupply (hedgeRequest "bal1" "uc" "op" "USD" 50) sampleResponse true hok
  have hamounts : (getPosting (post sampleDigest sampleSalt sampleSupply
      (hedgeRequest "bal1" "uc" "op" "USD" 50) sampleState).2 "bal1").map
        (fun rec => rec.entries.map (·.amount)) = some [100, 100] := by decide +kernel
  have hrec' : getPosting (post sampleDigest sampleSalt sampleSupply
      (hedgeRequest "bal1" "uc" "op" "USD" 50) sampleState).2 "bal1" = some rec := hrec
  rw [hrec', Option.map_some, Option.some.injEq] at hamounts
  obtain ⟨e, l, hfirst, _, hentries⟩ := List.forall₂_cons_left_iff.mp hbooked
  rw [hentries, List.map_cons, hfirst.2.2.1] at hamounts
  exact absurd (List.cons.inj hamounts).1 (by decide)

end LedgerAccounting
