/-
  File:      LedgerAccounting/Memory/Listings.lean
  Subject:   What `list_postings` of the in-memory store shows as the ledger grows.

  The listing sorts by the text `created_at`, then by id, and cuts off behind: a ledger that has
  filled the listing once shows what is booked later only if it ranks before what is listed.

  * `createdBefore_compares`: the comparison of the listings sorts.
  * `runFrom_books`: every further run books records behind the ones there are.
  * `listing_frozen`: who is listed, and when later postings leave a full listing as it is.
-/
import LedgerAccounting.Lib.Ranking
import LedgerAccounting.Memory.Bookkeeping
import LedgerAccounting.Store.Listings

namespace LedgerAccounting

open Runs Keyed Ranking

/-! ## 1. The comparison -/

theorem createdBefore_iff (a b : String × String) : createdBefore a b ↔ toLex a ≤ toLex b := by
  unfold createdBefore
  rw [Prod.Lex.toLex_le_toLex]
  simp

/-- **The comparison of the listings sorts**, whatever texts it is given of the members. -/
theorem createdBefore_compares {α : Type} (text : α → String × String) :
    Compares fun a b => createdBefore (text a) (text b) where
  trans a b c := by
    simp only [createdBefore_iff]
    exact le_trans
  total a b := by
    rw [Bool.or_eq_true, createdBefore_iff, createdBefore_iff]
    exact le_total _ _

/-- Members that tie have the same texts. -/
theorem createdBefore_antisymm {a b : String × String} (h : createdBefore a b)
    (h' : createdBefore b a) : a = b :=
  toLex.injective (le_antisymm ((createdBefore_iff a b).mp h) ((createdBefore_iff b a).mp h'))

/-- Records with distinct ids do not tie. -/
theorem createdBefore_untied {α : Type} {createdAt id : α → String} {l : List α}
    (hn : (l.map id).Nodup) :
    Untied (fun a b => createdBefore (createdAt a, id a) (createdAt b, id b)) l :=
  untied_of_key hn fun _ _ h h' => congrArg Prod.snd (createdBefore_antisymm h h')

/-- The comparison of `list_postings`. -/
def PostingRecord.createdBefore (a b : PostingRecord) : Bool :=
  LedgerAccounting.createdBefore (a.createdAt, a.postingId) (b.createdAt, b.postingId)

theorem postings_compares : Compares PostingRecord.createdBefore :=
  createdBefore_compares fun p : PostingRecord => (p.createdAt, p.postingId)

/-- The recorded postings, in the order of the map. -/
def LedgerState.recordedPostings (s : LedgerState) : List PostingRecord :=
  s.postings.entries.map (·.2)

section Listings

variable {digest : ByteArray → String} {salt : String} {s : LedgerState}
  {recs : List PostingRecord}

theorem Bookkeeping.untied (h : Bookkeeping s recs) :
    Untied PostingRecord.createdBefore recs := createdBefore_untied h.keys

/-- The recorded postings are the booked ones. -/
theorem Bookkeeping.values (h : Bookkeeping s recs) : s.recordedPostings.Perm recs := by
  have hlookup : ∀ key, s.postings.lookup key =
      (rowAt PostingRecord.postingId recs key).map fun rec => rec := by
    intro key
    rw [Option.map_id']
    exact Option.ext fun rec => (h.recorded key rec).trans (rowAt_eq_some h.keys).symm
  have hperm := values_perm h.keys hlookup
  rwa [List.map_id'] at hperm

/-- The listing is the cut of the booked records. -/
theorem listPostings_eq (h : Bookkeeping s recs) (limit : Nat) :
    listPostings s limit =
      (recs.mergeSort PostingRecord.createdBefore).take (clampLimit limit) := by
  rw [← sort_perm postings_compares h.untied h.values]
  rfl

/-! ## 2. What further runs book -/

theorem Bookkeeping.setAccounts (h : Bookkeeping s recs)
    (accounts : AList (fun _ : String => Account)) :
    Bookkeeping { s with accounts := accounts } recs :=
  ⟨h.keys, h.recorded, h.runs, h.entries, h.numbers, h.anchors, h.events, h.head⟩

variable (digest salt) in
/-- What one call books: the record of its posting, stamped by its clock, or nothing. -/
theorem apply_books (h : Bookkeeping s recs) (c : Call) :
    ∃ new, Bookkeeping (apply digest salt c s).2 (recs ++ new) ∧
      ∀ rec ∈ new, ∃ req sup, c = .post req sup ∧ rec.createdAt = sup.nowIso 0 := by
  have hkeep : ∀ {s'}, Bookkeeping s' recs → ∃ new, Bookkeeping s' (recs ++ new) ∧
      ∀ rec ∈ new, ∃ req sup, c = .post req sup ∧ rec.createdAt = sup.nowIso 0 := fun h' =>
    ⟨[], by rwa [List.append_nil], fun _ hrec => absurd hrec List.not_mem_nil⟩
  cases c with
  | createAccount req sup =>
    refine hkeep ?_
    show Bookkeeping (createAccount sup req s).2 recs
    rcases createAccount_cases sup req s with ⟨e, he⟩ | ⟨r, acc, _, _, _, hc⟩
    · rw [he]
      exact h
    · rw [hc]
      exact h.setAccounts _
  | post req sup =>
    show ∃ new, Bookkeeping (post digest salt sup req s).2 (recs ++ new) ∧ _
    rcases post_cases digest salt sup req s with ⟨e, he⟩ | ⟨parsed, rec, _, _, hrec⟩ | ⟨parsed, ha⟩
    · rw [he]
      exact hkeep h
    · rw [hrec]
      exact hkeep h
    · rw [post_accepted digest salt sup ha]
      refine ⟨_, bookkeeping_record h sup ha, fun rec hrec => ⟨req, sup, rfl, ?_⟩⟩
      rw [List.mem_singleton.mp hrec]
      rfl
  | writeSnapshots sup =>
    exact hkeep ⟨h.keys, h.recorded, h.runs, h.entries, h.numbers, h.anchors, h.events, h.head⟩

variable (digest salt) in
/-- **Every further run books records behind the ones there are**, each stamped by the clock of one
    of its calls. -/
theorem runFrom_books (h : Bookkeeping s recs) (calls : List Call) :
    ∃ new, Bookkeeping (runFrom digest salt calls s) (recs ++ new) ∧
      ∀ rec ∈ new, ∃ req sup, Call.post req sup ∈ calls ∧ rec.createdAt = sup.nowIso 0 := by
  induction calls using List.reverseRecOn with
  | nil => exact ⟨[], by rwa [List.append_nil], fun _ hrec => absurd hrec List.not_mem_nil⟩
  | append_singleton calls c ih =>
    obtain ⟨new, hbook, hnew⟩ := ih
    obtain ⟨more, hbook', hmore⟩ := apply_books digest salt hbook c
    rw [runFrom, run_concat]
    refine ⟨new ++ more, by rwa [← List.append_assoc], fun rec hrec => ?_⟩
    rcases List.mem_append.mp hrec with hrec | hrec
    · obtain ⟨req, sup, hmem, hat⟩ := hnew rec hrec
      exact ⟨req, sup, List.mem_append_left _ hmem, hat⟩
    · obtain ⟨req, sup, rfl, hat⟩ := hmore rec hrec
      exact ⟨req, sup, List.mem_append_right _ (List.mem_singleton_self _), hat⟩

/-! ## 3. Who is listed -/

/-- The recorded postings that no further run takes away, and the new ones. -/
theorem Bookkeeping.mem_new {s' : LedgerState} {new : List PostingRecord} (h : Bookkeeping s recs)
    (h' : Bookkeeping s' (recs ++ new)) (rec : PostingRecord) :
    rec ∈ new ↔ getPosting s rec.postingId = none ∧ getPosting s' rec.postingId = some rec := by
  constructor
  · intro hrec
    refine ⟨?_, (h'.recorded _ _).mpr ⟨List.mem_append_right _ hrec, rfl⟩⟩
    cases hold : getPosting s rec.postingId with
    | none => rfl
    | some old =>
      obtain ⟨hmem, hkey⟩ := (h.recorded _ _).mp hold
      have hkeys := h'.keys
      rw [List.map_append, List.nodup_append] at hkeys
      exact absurd hkey (hkeys.2.2 _ (List.mem_map_of_mem hmem) _ (List.mem_map_of_mem hrec))
  · rintro ⟨hnone, hsome⟩
    rcases List.mem_append.mp ((h'.recorded _ _).mp hsome).1 with hrec | hrec
    · exact absurd (List.mem_map_of_mem hrec) (h.not_mem hnone)
    · exact hrec

end Listings

/-- **Who is listed, and when the listing freezes.** In every reachable state `list_postings` lists
    a recorded posting exactly when fewer postings than the clamped limit rank before it. Once that
    many are recorded, further calls leave the listing as it is exactly when no new posting ranks
    before a listed one, and so always where the clock of each shows a text behind the
    `created_at` of every listed posting: two postings of one second are ranked by their ids. -/
theorem listing_frozen (digest : ByteArray → String) (salt : String) (before calls : List Call)
    (limit : Nat) :
    let s := runNew digest salt before
    let s' := runFrom digest salt calls s
    let listed := listPostings s limit
    (∀ rec, rec ∈ listed ↔ getPosting s rec.postingId = some rec ∧
      (s.recordedPostings.filter (ahead PostingRecord.createdBefore rec)).length <
        clampLimit limit) ∧
    (clampLimit limit ≤ s.recordedPostings.length →
      (listPostings s' limit = listed ↔ ∀ old ∈ listed, ∀ rec,
        getPosting s rec.postingId = none → getPosting s' rec.postingId = some rec →
        old.createdBefore rec) ∧
      ((∀ req sup, Call.post req sup ∈ calls → ∀ old ∈ listed, old.createdAt < sup.nowIso 0) →
        listPostings s' limit = listed)) := by
  intro s s' listed
  obtain ⟨recs, h⟩ := reachable_bookkeeping (⟨before, rfl⟩ : Reachable digest salt s)
  obtain ⟨new, h', hnew⟩ := runFrom_books digest salt h calls
  have hlisted : listed = (recs.mergeSort PostingRecord.createdBefore).take (clampLimit limit) :=
    listPostings_eq h limit
  refine ⟨fun rec => ?_, fun hfull => ?_⟩
  · rw [hlisted, mem_take_sort postings_compares h.untied h.keys.of_map, getPosting, h.recorded,
      (h.values.filter _).length_eq]
    simp
  · rw [h.values.length_eq] at hfull
    have hiff : listPostings s' limit = listed ↔ ∀ old ∈ listed, ∀ rec ∈ new,
        old.createdBefore rec := by
      rw [listPostings_eq h', hlisted]
      exact take_sort_append_iff postings_compares h'.untied h'.keys.of_map hfull
    refine ⟨hiff.trans ⟨fun hall old hold rec hnone hsome => ?_, fun hall old hold rec hrec => ?_⟩,
      fun hclock => hiff.mpr fun old hold rec hrec => ?_⟩
    · exact hall old hold rec ((h.mem_new h' rec).mpr ⟨hnone, hsome⟩)
    · obtain ⟨hnone, hsome⟩ := (h.mem_new h' rec).mp hrec
      exact hall old hold rec hnone hsome
    · obtain ⟨req, sup, hcall, hat⟩ := hnew rec hrec
      have hlt := hclock req sup hcall old hold
      rw [← hat] at hlt
      unfold PostingRecord.createdBefore LedgerAccounting.createdBefore
      simp [hlt]

end LedgerAccounting
