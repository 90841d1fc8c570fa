/-
  File:      LedgerAccounting/Pool/Rows.lean
  Subject:   What concurrent `post` calls leave in the tables of accounts and entries: the accounts
             as they were, entries with different ids, and a registered asset in every entry.

  * `exec_rows`: what a statement does to the rows of these two tables.
  * `exec_entryKeys`: the primary key of `entries`, over committed and pending rows.
  * `interleaved_accounts`, `interleaved_entryKeys`, `interleaved_assets`: what holds in every
    interleaving.
-/
import LedgerAccounting.Pool.PostSpec

namespace LedgerAccounting

open Script

/-! ## 1. What a statement does to the rows -/

/-- **What a statement of session `i` can do to the rows of accounts and entries**: one row of
    `entries` is added to its transaction, under the constraints of the schema, or none. -/
inductive RowStep (i : Nat) (w : World) : World → Prop where
  | same (w' : World) (base : w'.base = w.base) (log : w'.log = w.log) (txs : w'.txs = w.txs) :
      RowStep i w w'
  | opened : RowStep i w (w.setTx i .empty)
  | entry (t : Tables) (row : EntryRow) (found : w.txs.lookup i = some t)
      (admits : w.AdmitsEntry t row) : RowStep i w (w.setTx i (t.addEntry row))
  | other (t u : Tables) (found : w.txs.lookup i = some t) (accounts : u.accounts = t.accounts)
      (entries : u.entries = t.entries) : RowStep i w (w.setTx i u)
  | drop : RowStep i w (w.discard i)
  | apply (t : Tables) (found : w.txs.lookup i = some t) : RowStep i w (w.applyCommit i t)

theorem exec_rows {replica : Nat → Nat} {i : Nat} {w w' : World} {o : Stmt} {r : Reply o}
    (he : Exec replica i o w r w') : RowStep i w w' := by
  cases o with
  | selectPosting id => rw [he.1]; exact .same w rfl rfl rfl
  | selectEntriesOf id => rw [he.1]; exact .same w rfl rfl rfl
  | selectStatus id => rw [he.1]; exact .same w rfl rfl rfl
  | selectTypeName id => rw [he.1]; exact .same w rfl rfl rfl
  | selectMaxSequence => rw [he.1]; exact .same w rfl rfl rfl
  | selectEntries => rw [he.1]; exact .same w rfl rfl rfl
  | selectLastHash => rw [he.1]; exact .same _ rfl rfl rfl
  | begin =>
    rcases he with ⟨_, _, rfl⟩ | ⟨_, rfl⟩
    · exact .same _ rfl rfl rfl
    · exact .opened
  | insertPosting row =>
    rcases he with ⟨_, _, rfl⟩ | ⟨t, ht, ⟨_, _, rfl⟩ | ⟨_, _, rfl⟩⟩
    · exact .same _ rfl rfl rfl
    · exact .same _ rfl rfl rfl
    · exact .other t _ ht rfl rfl
  | insertEntry row =>
    rcases he with ⟨_, _, rfl⟩ | ⟨t, ht, _, hadmits, rfl⟩
    · exact .same _ rfl rfl rfl
    · exact .entry t row ht hadmits
  | insertAnchor row =>
    rcases he with ⟨_, _, rfl⟩ | ⟨t, ht, _, _, ⟨_, rfl⟩ | ⟨_, rfl⟩⟩
    · exact .same _ rfl rfl rfl
    · exact .same _ rfl rfl rfl
    · exact .other t _ ht rfl rfl
  | commit =>
    rcases he with ⟨_, _, rfl⟩ | ⟨t, ht, rfl⟩
    · exact .drop
    · exact .apply t ht
  | rollback => rw [he]; exact .drop
  | cache f => rw [he]; exact .same _ rfl rfl rfl
  | emit event => rw [he]; exact .same _ rfl rfl rfl

section Rows

variable {w w' : World} {i : Nat}

theorem db_congr (hbase : w'.base = w.base) (hlog : w'.log = w.log) : w'.db = w.db := by
  unfold World.db
  rw [hbase, hlog]

/-! ## 2. Accounts -/

/-- No transaction, committed or pending, holds a row of `accounts`. -/
structure NoAccounts (w : World) : Prop where
  committed : ∀ c ∈ w.log, c.tables.accounts = []
  pending : ∀ j t, w.txs.lookup j = some t → t.accounts = []

theorem noAccounts_setTx {t : Tables} (h : NoAccounts w) (ht : t.accounts = []) :
    NoAccounts (w.setTx i t) where
  committed := h.committed
  pending j u hj := by
    rcases setTx_cases hj with ⟨rfl, rfl⟩ | ⟨_, hju⟩
    · exact ht
    · exact h.pending j u hju

theorem rowStep_noAccounts (hs : RowStep i w w') (h : NoAccounts w) : NoAccounts w' := by
  cases hs with
  | same w' base log txs =>
    constructor
    · rw [log]; exact h.committed
    · rw [txs]; exact h.pending
  | opened => exact noAccounts_setTx h rfl
  | entry t row found admits => exact noAccounts_setTx h (h.pending i t found)
  | other t u found accounts entries =>
    exact noAccounts_setTx h (accounts.trans (h.pending i t found))
  | drop => exact ⟨h.committed, fun j t hj => h.pending j t (lookup_discard hj).2⟩
  | apply t found =>
    refine ⟨fun c hc => ?_, fun j t hj => h.pending j t (lookup_discard hj).2⟩
    rcases List.mem_append.mp hc with hc | hc
    · exact h.committed c hc
    · rw [List.mem_singleton.mp hc]
      exact h.pending i t found

theorem NoAccounts.dbAt (h : NoAccounts w) (n : Nat) : (w.dbAt n).accounts = w.base.accounts := by
  unfold World.dbAt
  rw [tablesAfter_rows Tables.accounts (fun _ _ => rfl), List.flatMap_eq_nil_iff.mpr,
    List.append_nil]
  exact fun c hc => h.committed c (List.mem_of_mem_take hc)

/-! ## 3. The primary key of `entries` -/

/-- No two rows of `entries`, committed or pending, have the same id. -/
structure EntryKeys (w : World) : Prop where
  committed : (w.db.entries.map (·.entryId)).Nodup
  distinct : ∀ j t, w.txs.lookup j = some t → (t.entries.map (·.entryId)).Nodup
  apart : Apart Tables.HasEntry w

theorem hasEntry_iff {t : Tables} {id : String} :
    t.HasEntry id ↔ id ∈ t.entries.map (·.entryId) := List.mem_map.symm

theorem hasEntry_append {t u : Tables} {id : String} (h : (t ++ u).HasEntry id) :
    t.HasEntry id ∨ u.HasEntry id := by
  rw [hasEntry_iff, append_entries, List.map_append, List.mem_append] at h
  rwa [hasEntry_iff, hasEntry_iff]

/-- A transaction whose rows are new ones or rows it had. -/
theorem entryKeys_setTx {t : Tables} (h : EntryKeys w) (hnodup : (t.entries.map (·.entryId)).Nodup)
    (hold : ∀ id, t.HasEntry id → w.Free (·.HasEntry id) ∨
      ∃ u, w.txs.lookup i = some u ∧ u.HasEntry id) : EntryKeys (w.setTx i t) := by
  refine ⟨h.committed, fun j u hj => ?_, h.apart.setTx hold⟩
  rcases setTx_cases hj with ⟨rfl, rfl⟩ | ⟨_, hju⟩
  · exact hnodup
  · exact h.distinct j u hju

theorem entryKeys_addEntry {t : Tables} {row : EntryRow} (h : EntryKeys w)
    (ht : w.txs.lookup i = some t) (hfree : w.Free (·.HasEntry row.entryId)) :
    EntryKeys (w.setTx i (t.addEntry row)) := by
  have hrows : (t.addEntry row).entries = t.entries ++ [row] := rfl
  refine entryKeys_setTx h ?_ fun id hid => ?_
  · rw [hrows, List.map_append, List.nodup_append]
    refine ⟨h.distinct i t ht, List.nodup_singleton _, fun a ha b hb hab => ?_⟩
    rw [hab, List.mem_singleton.mp hb] at ha
    exact hfree.2 i t ht (hasEntry_iff.mpr ha)
  · obtain ⟨e, he, rfl⟩ := hid
    rw [hrows] at he
    rcases List.mem_append.mp he with he | he
    · exact Or.inr ⟨t, ht, e, he, rfl⟩
    · rw [List.mem_singleton.mp he]
      exact Or.inl hfree

theorem entryKeys_applyCommit {t : Tables} (h : EntryKeys w) (ht : w.txs.lookup i = some t) :
    EntryKeys (w.applyCommit i t) := by
  refine ⟨?_, fun j u hj => h.distinct j u (lookup_discard hj).2,
    h.apart.applyCommit ht fun _ _ _ => hasEntry_append⟩
  rw [applyCommit_db, append_entries, List.map_append, List.nodup_append]
  refine ⟨h.committed, h.distinct i t ht, fun a ha b hb hab => ?_⟩
  subst hab
  exact h.apart.pending i t ht a (hasEntry_iff.mpr hb) (hasEntry_iff.mpr ha)

/-- **Every statement keeps the primary key.** -/
theorem exec_entryKeys {replica : Nat → Nat} {o : Stmt} {r : Reply o}
    (he : Exec replica i o w r w') (h : EntryKeys w) : EntryKeys w' := by
  cases exec_rows he with
  | same w' base log txs =>
    obtain ⟨hcommitted, hdistinct, hpending, hexclusive⟩ := h
    rw [← db_congr base log] at hcommitted hpending
    rw [← txs] at hdistinct hpending hexclusive
    exact ⟨hcommitted, hdistinct, hpending, hexclusive⟩
  | opened =>
    exact entryKeys_setTx h List.nodup_nil fun id ⟨_, hrow, _⟩ => absurd hrow List.not_mem_nil
  | entry t row found admits => exact entryKeys_addEntry h found admits.1
  | other t u found accounts entries =>
    refine entryKeys_setTx h (entries ▸ h.distinct i t found) fun id hid => ?_
    rw [hasEntry_iff, entries, ← hasEntry_iff] at hid
    exact Or.inr ⟨t, found, hid⟩
  | drop => exact ⟨h.committed, fun j t hj => h.distinct j t (lookup_discard hj).2, h.apart.discard⟩
  | apply t found => exact entryKeys_applyCommit h found

end Rows

/-! ## 4. In every interleaving -/

section Interleaving

variable {digest : ByteArray → String} {salt : String} {calls : Nat → PoolCall}
  {replica : Nat → Nat} {base : Tables} {inner : Nat → LedgerState}
  {c : Config World Nat Stmt Reply (Except PostError (PostingResponse × Bool))}

/-- **The accounts are those there were**, at every moment. -/
theorem interleaved_accounts (h : Interleaved digest salt calls replica base inner c) (n : Nat) :
    (c.state.dbAt n).accounts = base.accounts := by
  have hnone : NoAccounts c.state :=
    interleaved_invariant (I := NoAccounts)
      ⟨fun c hc => absurd hc List.not_mem_nil, fun j t hj => by cases hj⟩
      (fun _ _ _ _ _ he hI => rowStep_noAccounts (exec_rows he) hI) h
  rw [hnone.dbAt n, interleaved_base h]

/-- **Entries have different ids**, if those there were had. -/
theorem interleaved_entryKeys (hbase : (base.entries.map (·.entryId)).Nodup)
    (h : Interleaved digest salt calls replica base inner c) : EntryKeys c.state := by
  refine interleaved_invariant (I := EntryKeys) ?_
    (fun _ _ _ _ _ he hI => exec_entryKeys he hI) h
  refine ⟨hbase, fun j t hj => ?_, fun j t hj => ?_, fun j k t u _ hj => ?_⟩ <;> cases hj

/-- An entry of a posting is in a registered asset. -/
theorem booked_registered {call : PoolCall} {parsed : List ParsedEntry} {m : Nat} {g : String}
    {t : Tables} (hb : Booked digest salt call parsed m g t)
    (hv : validateRequest call.sup call.req = .ok parsed) {e : EntryRow} (he : e ∈ t.entries) :
    (findAsset e.asset).isSome := by
  have hvalid := (validateRequest_ok_iff call.sup call.req parsed).mp hv
  rw [hb.entries] at he
  obtain ⟨x, hx, rfl⟩ := List.mem_map.mp he
  obtain ⟨p, hp, _, _, _, rfl⟩ := Runs.forall₂_mem_right memoryLoop_spec.made hx
  obtain ⟨input, hinput, hparse⟩ := Runs.forall₂_mem_right hvalid.parses hp
  obtain ⟨_, _, _, hasset⟩ := (parseEntry_ok_iff input p).mp hparse
  obtain ⟨spec, hspec, _⟩ := (checkAmount_ok_iff input).mp (hvalid.amounts input hinput)
  have hfound : findAsset p.asset = some spec := hasset ▸ hspec
  exact Option.isSome_of_eq_some hfound

/-- **Every entry has an asset with a name**, if those there were had. -/
theorem interleaved_assets (hbase : ∀ e ∈ base.entries, e.asset ≠ "")
    (h : Interleaved digest salt calls replica base inner c) :
    ∀ e ∈ c.state.db.entries, e.asset ≠ "" := by
  obtain ⟨hI, _⟩ := interleaved_sound h
  intro e he
  unfold World.db at he
  rw [tablesAfter_entries, interleaved_base h] at he
  rcases List.mem_append.mp he with he | he
  · exact hbase e he
  · obtain ⟨k, hk, hek⟩ := List.mem_flatMap.mp he
    obtain ⟨n, hn⟩ := List.mem_iff_getElem?.mp hk
    obtain ⟨parsed, m, g, hmade⟩ := hI.made n k hn
    have hregistered := booked_registered hmade.booked hmade.valid hek
    intro hempty
    rw [hempty] at hregistered
    revert hregistered
    decide

end Interleaving

end LedgerAccounting
