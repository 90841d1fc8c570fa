/-
  File:      LedgerAccounting/Pool/Durability.lean
  Subject:   What an `Ok` of `post` is worth later: calls go on overlapping, statements fail,
             commits are applied and reported as failed, processes stop and are started again.

  * `cluster_grows`: no step takes a committed transaction away.
  * `committed_answer`: what `get_posting` answers from the rows of a committed transaction.
  * `acknowledged_durable`: an acknowledged posting is answered ever after as it was acknowledged.
-/
import LedgerAccounting.Pool.Books
import LedgerAccounting.Pool.Retry

namespace LedgerAccounting

open Keyed

section Durability

variable {digest : ByteArray → String} {salt : String} {calls : Nat → PoolCall}
  {replica : Nat → Nat} {base : Tables} {inner : Nat → LedgerState} {c c' : Cluster}

/-! ## 1. The log only grows -/

theorem step_grows (h : ClusterStep digest salt calls replica c c') :
    c.world.log <+: c'.world.log := by
  cases h with
  | begin i waits up => exact List.prefix_rfl
  | issue i o k r w next exec => exact (exec_frame (Nat.succ_ne_self i).symm o r exec).log
  | stop p up =>
    have hlog : (c.stop replica p).world.log = c.world.log :=
      (rolled_stopProcess replica c.world p).log
    rw [hlog]
  | restart p reads s down hydrated => exact List.prefix_rfl

/-- **No run takes a committed transaction away.** -/
theorem cluster_grows (h : Relation.ReflTransGen (ClusterStep digest salt calls replica) c c') :
    c.world.log <+: c'.world.log := by
  induction h with
  | refl => exact List.prefix_rfl
  | tail _ hs ih => exact ih.trans (step_grows hs)

/-! ## 2. What is answered for a committed transaction -/

/-- The row of a posting is that of its transaction. -/
theorem rowAt_committed {w : World} (hI : PoolInv digest salt calls w) {k : Commit} {id : String}
    (hlacks : w.base.Lacks id) (hk : k ∈ w.log) {row : PostingRow}
    (hrow : k.tables.postings = [row]) (hid : row.postingId = id) :
    rowAt PostingRow.postingId w.db.postings id = some row := by
  have hmem : row ∈ w.db.postings := by
    unfold World.db
    rw [tablesAfter_postings]
    refine List.mem_append_right _ (List.mem_flatMap.mpr ⟨k, hk, ?_⟩)
    rw [hrow]
    exact List.mem_singleton_self row
  have hkid : k.tables.HasPosting id := ⟨row, hrow ▸ List.mem_singleton_self row, hid⟩
  cases hfound : rowAt PostingRow.postingId w.db.postings id with
  | none => exact absurd hid (rowAt_eq_none.mp hfound row hmem)
  | some r =>
    obtain ⟨hr, hrid⟩ := rowAt_mem hfound
    subst hrid
    obtain ⟨d, hd, hdid, hdrow⟩ := committed_row hI hr hlacks
    have hdk : d = k := hI.unique hd hk hdid hkid
    rw [hdk, hrow] at hdrow
    rw [List.head_eq_of_cons_eq hdrow]

/-- **What `get_posting` answers for a committed transaction**: its own response, and the entries of
    the request of its call, whatever else is committed. -/
theorem committed_answer {w : World} (hI : PoolInv digest salt calls w) {k : Commit} {id : String}
    (hlacks : w.base.Lacks id) (hk : k ∈ w.log) (hid : k.tables.HasPosting id) :
    ∃ rec : PostingRecord, k.tables.response = some rec.response ∧
      (calls k.session).req.postingId = id ∧ (calls k.session).req.BookedAs rec.entries ∧
      rec.memo = (calls k.session).req.memo ∧ rec.refTxId = (calls k.session).req.refTxId ∧
      ∀ rows, Ordered (entriesOf w.db.entries id) rows →
        getPostingDb (.ok (rowAt PostingRow.postingId w.db.postings id)) (.ok rows) = some rec := by
  obtain ⟨n, hn⟩ := List.mem_iff_getElem?.mp hk
  obtain ⟨parsed, m, g, hmade⟩ := hI.made n k hn
  have hb := hmade.booked
  have hcall : (calls k.session).req.postingId = id := ((hb.hasPosting id).mp hid).symm
  refine ⟨(postingRow (calls k.session).req ((calls k.session).sup.nowIso 0)
    (memoryLoop digest salt (calls k.session) m g parsed).prevHash).record
      (k.tables.entries.map EntryRow.record), ?_, hcall, booked_bookedAs hb hmade.valid, rfl, rfl,
    fun rows hrows => ?_⟩
  · unfold Tables.response
    rw [hb.postings]
    simp only [List.head?_cons, Option.map_some, PostingRecord.response, PostingRow.record,
      List.map_map]
    rfl
  · rw [entriesOf_committed hI hlacks hk hid] at hrows
    rw [rowAt_committed hI hlacks hk hb.postings hcall, ordered_unique hrows hb.increasing]
    rfl

/-! ## 3. The guarantee -/

/-- **An acknowledged posting lasts.** Once call `i` has been answered `Ok`, `get_posting` answers
    in every later state the response that was acknowledged, and the entries of one request made
    under the posting id, each once and in order: of call `i` itself, if it was told that the
    posting was new. Every other `Ok` for the posting is the same response. -/
theorem acknowledged_durable (digest : ByteArray → String) (salt : String)
    (calls : Nat → PoolCall) (replica : Nat → Nat) (base : Tables) (inner : Nat → LedgerState)
    (c c' : Cluster) (h : ClusterReach digest salt calls replica base inner c)
    (hlater : Relation.ReflTransGen (ClusterStep digest salt calls replica) c c') (i : Nat)
    (a : PostingResponse × Bool) (hi : (c.phase i).answer = some (.ok a))
    (hlacks : base.Lacks (calls i).req.postingId) :
    let id := (calls i).req.postingId
    let t := c'.world.db
    ∃ j rec, (calls j).req.postingId = id ∧ (a.2 = false → j = i) ∧
      (calls j).req.BookedAs rec.entries ∧ rec.memo = (calls j).req.memo ∧
      rec.refTxId = (calls j).req.refTxId ∧ rec.response = a.1 ∧
      (∀ rows, Ordered (entriesOf t.entries id) rows →
        getPostingDb (.ok (rowAt PostingRow.postingId t.postings id)) (.ok rows) = some rec) ∧
      ∀ k b, (calls k).req.postingId = id → (c'.phase k).answer = some (.ok b) → b.1 = a.1 := by
  intro id t
  have hs := cluster_sound h
  have hs' := cluster_sound (h.trans hlater)
  have hphase : ∀ {c : Cluster} {k : Nat} {b}, (c.phase k).answer = some (.ok b) →
      c.phase k = .running (.ret (.ok b)) := by
    intro c k b hb
    unfold Phase.answer at hb
    split at hb
    · rename_i heq
      rw [heq, Option.some.inj hb]
    · cases hb
  obtain ⟨k, hk, hid, hresponse, hfresh⟩ := hs.answered i a (hphase hi) (by rwa [hs.base])
  have hk' := (cluster_grows hlater).subset hk
  have hlacks' : c'.world.base.Lacks id := by rwa [hs'.base]
  obtain ⟨rec, hrec, hcall, hbooked, hmemo, href, hget⟩ :=
    committed_answer hs'.poolInv hlacks' hk' hid
  refine ⟨k.session, rec, hcall, hfresh, hbooked, hmemo, href,
    Option.some.inj (hrec.symm.trans hresponse), hget, fun l b hl hb => ?_⟩
  obtain ⟨d, hd, hdid, hdresponse, _⟩ := hs'.answered l b (hphase hb) (by rwa [hl])
  rw [hl] at hdid
  have hdk : d = k := hs'.poolInv.unique hd hk' hdid hid
  rw [hdk] at hdresponse
  exact Option.some.inj (hdresponse.symm.trans hresponse)

end Durability

/-- The first call of Idempotency.lean is answered; then its process stops, and the second call is
    served on the other replica. -/
def sampleAcknowledged : Cluster :=
  (Cluster.start sampleTables fun _ => .new).turns sampleDigest sampleSalt sampleTwice id (exec id)
    (List.replicate 16 0)

def sampleSurvived : Cluster :=
  (sampleAcknowledged.stop id 0).turns sampleDigest sampleSalt sampleTwice id (exec id)
    (List.replicate 8 1)

theorem acknowledged_durable_sample :
    (sampleSurvived.phase 1).answer = some (.ok (sampleResponse, true)) ∧
    ∃ rec : PostingRecord, sampleRequest.BookedAs rec.entries ∧ rec.response = sampleResponse ∧
      ∀ rows, Ordered (entriesOf sampleSurvived.world.db.entries "bal1") rows →
        getPostingDb (.ok (rowAt PostingRow.postingId sampleSurvived.world.db.postings "bal1"))
          (.ok rows) = some rec := by
  have hlacks : sampleTables.Lacks "bal1" := ⟨by decide, fun _ he => absurd he List.not_mem_nil⟩
  have hstop : ClusterStep sampleDigest sampleSalt sampleTwice id sampleAcknowledged
      (sampleAcknowledged.stop id 0) := .stop 0 (by decide +kernel)
  obtain ⟨j, rec, _, _, hbooked, _, _, hresponse, hget, _⟩ := acknowledged_durable sampleDigest
    sampleSalt sampleTwice id sampleTables (fun _ => .new) sampleAcknowledged sampleSurvived
    (reach_turns (exec_sound id) _ _) (.head hstop (reach_turns (exec_sound id) _ _)) 0
    (sampleResponse, false) (by decide +kernel) hlacks
  exact ⟨by decide +kernel, rec, hbooked, hresponse, hget⟩

end LedgerAccounting
