/-
  File:      LedgerAccounting/Pool/Idempotency.lean
  Subject:   Concurrent and repeated `post` calls with one posting id: one committed transaction,
             one answer.

  The calls run on any replicas, in any interleaving of their statements; statements may fail, and a
  call may stop at any point. Calls with other posting ids may run between them.

  * `pool_post_idempotent`: the guarantee.
-/
import LedgerAccounting.Pool.PostSpec
import LedgerAccounting.Run

namespace LedgerAccounting

open Script

/-! ## 1. One transaction a posting -/

/-- The transaction holds a row of the posting. -/
def Commit.Touches (c : Commit) (id : String) : Prop :=
  c.tables.HasPosting id ∨ ∃ e ∈ c.tables.entries, e.postingId = id

section Guarantee

variable {digest : ByteArray → String} {salt : String} {calls : Nat → PoolCall}

theorem touches_hasPosting {w : World} (hI : PoolInv digest salt calls w) {c : Commit}
    (hc : c ∈ w.log) {id : String} (h : c.Touches id) : c.tables.HasPosting id := by
  obtain ⟨_, _, _, hb⟩ := hI.booked hc
  rcases h with h | ⟨e, he, heq⟩
  · exact h
  · rw [hb.hasPosting, ← heq, hb.postingId he]

/-- **At most one transaction of the log touches a posting.** -/
theorem touches_once {w : World} (hI : PoolInv digest salt calls w) {id : String} {k l : Nat}
    {c d : Commit} (hk : w.log[k]? = some c) (hl : w.log[l]? = some d) (hc : c.Touches id)
    (hd : d.Touches id) : k = l := by
  have hcid := touches_hasPosting hI (List.mem_of_getElem? hk) hc
  have hdid := touches_hasPosting hI (List.mem_of_getElem? hl) hd
  have hcd := List.pairwise_iff_getElem.mp hI.keys.committed
  obtain ⟨hkl, rfl⟩ := List.getElem?_eq_some_iff.mp hk
  obtain ⟨hll, rfl⟩ := List.getElem?_eq_some_iff.mp hl
  rcases Nat.lt_trichotomy k l with h | h | h
  · exact absurd hdid (hcd k l hkl hll h id hcid)
  · exact h
  · exact absurd hcid (hcd l k hll hkl h id hdid)

theorem response_entryIds {t : Tables} {r : PostingResponse} (h : t.response = some r) :
    r.entryIds = t.entries.map (·.entryId) := by
  unfold Tables.response at h
  obtain ⟨row, _, rfl⟩ := Option.map_eq_some_iff.mp h
  rfl

/-- The entry ids answered for a posting are those of its committed rows, in their order. -/
theorem response_committed {w : World} (hI : PoolInv digest salt calls w) {id : String}
    (hlacks : w.base.Lacks id) {c : Commit} (hc : c ∈ w.log) (hid : c.tables.HasPosting id)
    {r : PostingResponse} (hr : c.tables.response = some r) {rows : List EntryRow}
    (hrows : Ordered (entriesOf w.db.entries id) rows) : r.entryIds = rows.map (·.entryId) := by
  obtain ⟨_, _, _, hb⟩ := hI.booked hc
  rw [entriesOf_committed hI hlacks hc hid] at hrows
  rw [ordered_unique hrows hb.increasing]
  exact response_entryIds hr

end Guarantee

/-! ## 2. The guarantee -/

/-- **Concurrent and repeated calls with one posting id commit one transaction and return one
    answer.** Of the calls that return `Ok`, at most one has `replay = false`; all return the same
    response, and its entry ids are those of the committed rows. -/
theorem pool_post_idempotent (digest : ByteArray → String) (salt : String)
    (calls : Nat → PoolCall) (replica : Nat → Nat) (base : Tables) (inner : Nat → LedgerState)
    (id : String) (hlacks : base.Lacks id)
    (c : Config World Nat Stmt Reply (Except PostError (PostingResponse × Bool)))
    (h : Interleaved digest salt calls replica base inner c) :
    (∀ (k l : Nat) (x y : Commit), c.state.log[k]? = some x → c.state.log[l]? = some y →
      x.Touches id → y.Touches id → k = l) ∧
    ∀ i a, (calls i).req.postingId = id → (c.threads i).result = some (.ok a) →
      c.state.db.HasPosting id ∧
      (∀ rows, Ordered (entriesOf c.state.db.entries id) rows →
        a.1.entryIds = rows.map (·.entryId)) ∧
      ∀ j b, (calls j).req.postingId = id → (c.threads j).result = some (.ok b) →
        a.1 = b.1 ∧ (a.2 = false → b.2 = false → i = j) := by
  obtain ⟨hI, hanswered⟩ := interleaved_sound h
  rw [← interleaved_base h] at hlacks
  refine ⟨fun k l x y hk hl hx hy => touches_once hI hk hl hx hy, fun i a hi ha => ?_⟩
  have hai := hanswered i a ha
  rw [hi] at hai
  obtain ⟨x, hx, hxid, hxr, hxs⟩ := hai hlacks
  refine ⟨(tablesAfter_hasPosting _ _ _).mpr (Or.inr ⟨x, hx, hxid⟩),
    fun rows hrows => response_committed hI hlacks hx hxid hxr hrows, fun j b hj hb => ?_⟩
  have hbj := hanswered j b hb
  rw [hj] at hbj
  obtain ⟨y, hy, hyid, hyr, hys⟩ := hbj hlacks
  have hxy : x = y := hI.unique hx hy hxid hyid
  subst hxy
  refine ⟨Option.some.inj (hxr.symm.trans hyr), fun hafresh hbfresh => ?_⟩
  rw [← hxs hafresh, hys hbfresh]

/-! ## 3. A race

Two calls with the posting of Run.lean on two replicas: both find nothing at first, the second one
waits for the first and then answers from its rows. -/

/-- The two accounts of Run.lean. -/
def sampleTables : Tables where
  accounts := [⟨"uc", "user_custodial", "BOTH", "user_custodial-uc", none, "ACTIVE", 1700000000⟩,
    ⟨"op", "operational_fiat", "FIAT", "operational_fiat-op", none, "ACTIVE", 1700000000⟩]
  postings := []
  entries := []
  hashChain := []

/-- The identifiers of the second replica. -/
def sampleSupply2 : Supply :=
  { sampleSupply with
    uuid := fun k => ["018bcfe5-6800-7000-8000-000000000011",
      "018bcfe5-6800-7000-8000-000000000012", "018bcfe5-6800-7000-8000-000000000013"].getD k "" }

def sampleTwice (i : Nat) : PoolCall where
  sup := if i = 0 then sampleSupply else sampleSupply2
  sink := false
  req := sampleRequest

/-- Both up to the insert into `postings`, then the first one to its end, then the second one. -/
def sampleRaceOrder : List Nat :=
  (List.replicate 8 [0, 1]).flatten ++ List.replicate 7 0 ++ List.replicate 4 1

def sampleRace : Config World Nat Stmt Reply (Except PostError (PostingResponse × Bool)) :=
  runSchedule (exec id) sampleRaceOrder
    (startCalls sampleDigest sampleSalt sampleTwice (World.start sampleTables fun _ => .new))

theorem pool_post_idempotent_sample :
    (sampleRace.threads 0).result = some (.ok (sampleResponse, false)) ∧
    (sampleRace.threads 1).result = some (.ok (sampleResponse, true)) ∧
    ∀ j b, (sampleTwice j).req.postingId = "bal1" → (sampleRace.threads j).result = some (.ok b) →
      sampleResponse = b.1 ∧ (b.2 = false → 0 = j) := by
  have hlacks : sampleTables.Lacks "bal1" := ⟨by decide, fun _ he => absurd he List.not_mem_nil⟩
  have hzero : (sampleRace.threads 0).result = some (.ok (sampleResponse, false)) := by
    decide +kernel
  have hone : (sampleRace.threads 1).result = some (.ok (sampleResponse, true)) := by
    decide +kernel
  have hall := pool_post_idempotent sampleDigest sampleSalt sampleTwice id sampleTables
    (fun _ => .new) "bal1" hlacks sampleRace (reach_runSchedule (exec_sound id) _ _)
  refine ⟨hzero, hone, fun j b hj hb => ?_⟩
  obtain ⟨heq, hfresh⟩ := (hall.2 0 (sampleResponse, false) rfl hzero).2.2 j b hj hb
  exact ⟨heq, hfresh rfl⟩

end LedgerAccounting
