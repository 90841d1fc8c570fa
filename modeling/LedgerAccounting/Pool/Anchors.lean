/-
  File:      LedgerAccounting/Pool/Anchors.lean
  Subject:   The rows of `hash_chain` under concurrent `post` calls, and the tables that are left
             when every commit was serial.

  * `exec_anchors`: what a statement does to the rows of `hash_chain`.
  * `cluster_anchors`: every anchor has a key of its own and belongs to a posting.
  * `serial_posted`: after serial commits the tables are as posts leave them.
-/
import LedgerAccounting.Pool.Books

namespace LedgerAccounting

/-! ## 1. What a statement does to the anchors -/

/-- **What a statement of session `i` can do to the rows of `hash_chain`**: one row is added to its
    transaction, with a key nobody holds and under a posting there is, or none. -/
inductive AnchorStep (i : Nat) (w : World) : World → Prop where
  | same (w' : World) (base : w'.base = w.base) (log : w'.log = w.log) (txs : w'.txs = w.txs) :
      AnchorStep i w w'
  | opened : AnchorStep i w (w.setTx i .empty)
  | anchor (t : Tables) (row : AnchorRow) (found : w.txs.lookup i = some t)
      (free : w.Free (·.HasAnchor row.postingId))
      (filed : w.db.HasPosting row.postingId ∨ t.HasPosting row.postingId) :
      AnchorStep i w (w.setTx i (t.addAnchor row))
  | other (t u : Tables) (found : w.txs.lookup i = some t) (anchors : u.hashChain = t.hashChain)
      (postings : ∀ id, t.HasPosting id → u.HasPosting id) : AnchorStep i w (w.setTx i u)
  | drop : AnchorStep i w (w.discard i)
  | apply (t : Tables) (found : w.txs.lookup i = some t) : AnchorStep i w (w.applyCommit i t)

theorem exec_anchors {replica : Nat → Nat} {i : Nat} {w w' : World} {o : Stmt} {r : Reply o}
    (he : Exec replica i o w r w') : AnchorStep i w w' := by
  cases o with
  | selectPosting id => rw [he.1]; exact .same w rfl rfl rfl
  | selectEntriesOf id => rw [he.1]; exact .same w rfl rfl rfl
  | selectStatus id => rw [he.1]; exact .same w rfl rfl rfl
  | selectTypeName id => rw [he.1]; exact .same w rfl rfl rfl
  | selectMaxSequence => rw [he.1]; exact .same w rfl rfl rfl
  | selectEntries => rw [he.1]; exact .same w rfl rfl rfl
  | selectLastHash => rw [he.1]; exact .same _ rfl rfl rfl
  | begin =>
    rcases he with ⟨_, _, rfl⟩ | ⟨_, rfl⟩
    · exact .same _ rfl rfl rfl
    · exact .opened
  | insertPosting row =>
    rcases he with ⟨_, _, rfl⟩ | ⟨t, ht, ⟨_, _, rfl⟩ | ⟨_, _, rfl⟩⟩
    · exact .same _ rfl rfl rfl
    · exact .same _ rfl rfl rfl
    · exact .other t _ ht rfl fun id ⟨p, hp, hid⟩ => ⟨p, List.mem_append_left _ hp, hid⟩
  | insertEntry row =>
    rcases he with ⟨_, _, rfl⟩ | ⟨t, ht, _, _, rfl⟩
    · exact .same _ rfl rfl rfl
    · exact .other t _ ht rfl fun id hid => hid
  | insertAnchor row =>
    rcases he with ⟨_, _, rfl⟩ | ⟨t, ht, _, hfiled, ⟨_, rfl⟩ | ⟨hfree, rfl⟩⟩
    · exact .same _ rfl rfl rfl
    · exact .same _ rfl rfl rfl
    · exact .anchor t row ht hfree hfiled
  | commit =>
    rcases he with ⟨_, _, rfl⟩ | ⟨t, ht, rfl⟩
    · exact .drop
    · exact .apply t ht
  | rollback => rw [he]; exact .drop
  | cache f => rw [he]; exact .same _ rfl rfl rfl
  | emit event => rw [he]; exact .same _ rfl rfl rfl

/-! ## 2. The keys of the anchors -/

/-- No two anchors, committed or pending, have the same key, and each belongs to a posting. -/
structure AnchorKeys (w : World) : Prop where
  committed : (w.db.hashChain.map (·.postingId)).Nodup
  distinct : ∀ j t, w.txs.lookup j = some t → (t.hashChain.map (·.postingId)).Nodup
  apart : Apart Tables.HasAnchor w
  filed : ∀ a ∈ w.db.hashChain, w.db.HasPosting a.postingId
  filing : ∀ j t, w.txs.lookup j = some t → ∀ a ∈ t.hashChain,
    w.db.HasPosting a.postingId ∨ t.HasPosting a.postingId

section Keys

variable {w w' : World} {i : Nat}

theorem append_hashChain (t u : Tables) : (t ++ u).hashChain = t.hashChain ++ u.hashChain := rfl

theorem hasAnchor_iff {t : Tables} {id : String} :
    t.HasAnchor id ↔ id ∈ t.hashChain.map (·.postingId) := List.mem_map.symm

theorem hasAnchor_append {t u : Tables} {id : String} (h : (t ++ u).HasAnchor id) :
    t.HasAnchor id ∨ u.HasAnchor id := by
  rw [hasAnchor_iff, append_hashChain, List.map_append, List.mem_append] at h
  rwa [hasAnchor_iff, hasAnchor_iff]

/-- A transaction whose anchors are new ones or those it had. -/
theorem anchorKeys_setTx {t : Tables} (h : AnchorKeys w)
    (hnodup : (t.hashChain.map (·.postingId)).Nodup)
    (hold : ∀ id, t.HasAnchor id → w.Free (·.HasAnchor id) ∨
      ∃ u, w.txs.lookup i = some u ∧ u.HasAnchor id)
    (hfiling : ∀ a ∈ t.hashChain, w.db.HasPosting a.postingId ∨ t.HasPosting a.postingId) :
    AnchorKeys (w.setTx i t) := by
  refine ⟨h.committed, fun j u hj => ?_, h.apart.setTx hold, h.filed, fun j u hj => ?_⟩
  · rcases setTx_cases hj with ⟨rfl, rfl⟩ | ⟨_, hju⟩
    · exact hnodup
    · exact h.distinct j u hju
  · rcases setTx_cases hj with ⟨rfl, rfl⟩ | ⟨_, hju⟩
    · exact hfiling
    · exact h.filing j u hju

theorem anchorKeys_addAnchor {t : Tables} {row : AnchorRow} (h : AnchorKeys w)
    (ht : w.txs.lookup i = some t) (hfree : w.Free (·.HasAnchor row.postingId))
    (hfiled : w.db.HasPosting row.postingId ∨ t.HasPosting row.postingId) :
    AnchorKeys (w.setTx i (t.addAnchor row)) := by
  have hrows : (t.addAnchor row).hashChain = t.hashChain ++ [row] := rfl
  refine anchorKeys_setTx h ?_ (fun id hid => ?_) fun a ha => ?_
  · rw [hrows, List.map_append, List.nodup_append]
    refine ⟨h.distinct i t ht, List.nodup_singleton _, fun a ha b hb hab => ?_⟩
    rw [hab, List.mem_singleton.mp hb] at ha
    exact hfree.2 i t ht (hasAnchor_iff.mpr ha)
  · obtain ⟨a, ha, rfl⟩ := hid
    rw [hrows] at ha
    rcases List.mem_append.mp ha with ha | ha
    · exact Or.inr ⟨t, ht, a, ha, rfl⟩
    · rw [List.mem_singleton.mp ha]
      exact Or.inl hfree
  · rw [hrows] at ha
    rcases List.mem_append.mp ha with ha | ha
    · exact h.filing i t ht a ha
    · rw [List.mem_singleton.mp ha]
      exact hfiled

theorem anchorKeys_applyCommit {t : Tables} (h : AnchorKeys w) (ht : w.txs.lookup i = some t) :
    AnchorKeys (w.applyCommit i t) := by
  have hdb : (w.applyCommit i t).db = w.db ++ t := applyCommit_db t
  refine ⟨?_, fun j u hj => h.distinct j u (lookup_discard hj).2,
    h.apart.applyCommit ht fun _ _ _ => hasAnchor_append, fun a ha => ?_, fun j u hj a ha => ?_⟩
  · rw [hdb, append_hashChain, List.map_append, List.nodup_append]
    refine ⟨h.committed, h.distinct i t ht, fun a ha b hb hab => ?_⟩
    subst hab
    exact h.apart.pending i t ht a (hasAnchor_iff.mpr hb) (hasAnchor_iff.mpr ha)
  · rw [hdb] at ha ⊢
    rw [hasPosting_append]
    rcases List.mem_append.mp ha with ha | ha
    · exact Or.inl (h.filed a ha)
    · exact h.filing i t ht a ha
  · rw [hdb, hasPosting_append]
    rcases h.filing j u (lookup_discard hj).2 a ha with hin | hin
    · exact Or.inl (Or.inl hin)
    · exact Or.inr hin

/-- **Every statement keeps the keys of the anchors.** -/
theorem exec_anchorKeys {replica : Nat → Nat} {o : Stmt} {r : Reply o}
    (he : Exec replica i o w r w') (h : AnchorKeys w) : AnchorKeys w' := by
  cases exec_anchors he with
  | same w' base log txs =>
    obtain ⟨hcommitted, hdistinct, ⟨hpending, hexclusive⟩, hfiled, hfiling⟩ := h
    rw [← db_congr base log] at hcommitted hpending hfiled hfiling
    rw [← txs] at hdistinct hpending hexclusive hfiling
    exact ⟨hcommitted, hdistinct, ⟨hpending, hexclusive⟩, hfiled, hfiling⟩
  | opened =>
    exact anchorKeys_setTx h List.nodup_nil (fun id ⟨_, hrow, _⟩ => absurd hrow List.not_mem_nil)
      fun a ha => absurd ha List.not_mem_nil
  | anchor t row found free filed => exact anchorKeys_addAnchor h found free filed
  | other t u found anchors postings =>
    refine anchorKeys_setTx h (anchors ▸ h.distinct i t found) (fun id hid => ?_) fun a ha => ?_
    · rw [hasAnchor_iff, anchors, ← hasAnchor_iff] at hid
      exact Or.inr ⟨t, found, hid⟩
    · rw [anchors] at ha
      exact (h.filing i t found a ha).imp_right (postings a.postingId)
  | drop =>
    exact ⟨h.committed, fun j t hj => h.distinct j t (lookup_discard hj).2, h.apart.discard,
      h.filed, fun j t hj => h.filing j t (lookup_discard hj).2⟩
  | apply t found => exact anchorKeys_applyCommit h found

end Keys

/-! ## 3. In every run of the cluster -/

/-- Anchors with keys of their own, each under a posting. -/
structure Tables.Anchored (t : Tables) : Prop where
  anchorIds : (t.hashChain.map (·.postingId)).Nodup
  anchorKeys : ∀ a ∈ t.hashChain, t.HasPosting a.postingId

section Cluster

variable {digest : ByteArray → String} {salt : String} {calls : Nat → PoolCall}
  {replica : Nat → Nat} {base : Tables} {inner : Nat → LedgerState} {c : Cluster}

/-- **Every anchor has a key of its own and belongs to a posting**, in every run of the cluster. -/
theorem cluster_anchors (hbase : base.Anchored)
    (h : ClusterReach digest salt calls replica base inner c) : c.world.db.Anchored := by
  have hkeys : AnchorKeys c.world := by
    refine cluster_invariant (I := AnchorKeys) ⟨hbase.anchorIds, ?_, ⟨?_, ?_⟩, hbase.anchorKeys, ?_⟩
      (fun f i o w r w' he hI => exec_anchorKeys he hI) h
    · exact fun j t hj => by cases hj
    · exact fun j t hj => by cases hj
    · exact fun i j t u _ hi => by cases hi
    · exact fun j t hj => by cases hj
  exact ⟨hkeys.committed, hkeys.filed⟩

/-- **After serial commits the tables are as posts leave them**, and carry the chain. -/
theorem serial_posted (hbooks : base.InBalance) (hanchored : base.Anchored)
    (hchained : Chained digest salt base.entries)
    (h : ClusterReach digest salt calls replica base inner c) (hserial : Serial c.world) :
    c.world.db.Posted ∧ Chained digest salt c.world.db.entries := by
  have hs := cluster_sound h
  have hbal := cluster_inBalance hbooks h c.world.log.length
  have hanchors := cluster_anchors hanchored h
  rw [← hs.base] at hchained
  have hchain := chained_dbAt hs.poolInv hchained c.world.log.length le_rfl
    fun k hk _ => hserial k hk
  rw [dbAt_length] at hbal hchain
  exact ⟨⟨⟨hbal.accountIds, hbal.postingIds, hanchors.anchorIds, hbal.amounts, hchain.increasing⟩,
    fun e he => hbal.direction he, hbal.filed, hanchors.anchorKeys⟩, hchain⟩

end Cluster

end LedgerAccounting
