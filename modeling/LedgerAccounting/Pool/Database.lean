/-
  File:      LedgerAccounting/Pool/Database.lean
  Subject:   The database behind the pool: its statements, what each of them may do, and the
             replicas' caches.

  A statement on the pool sees what is committed before it; the rows a transaction inserts become
  visible together at its commit; a statement may fail at any time, and a commit may be applied
  although it is reported as failed. An insert waits for a concurrent inserter of the same key
  until that one has committed or rolled back.

  * `exec_effect`: the ways a statement can change the world.
  * `exec_frame`: a statement of one session leaves the transaction of every other as it is, and
    only appends to what is committed.
  * `exec_sound`: the executable run, in which nothing fails, is a run of the database.
-/
import LedgerAccounting.Pool.Tables
import LedgerAccounting.Lib.Script

namespace LedgerAccounting

/-! ## 1. The world -/

/-- A read of the last hash: how many transactions were committed then, and the hash it found. -/
structure HashRead where
  committed : Nat
  found : Option String
  deriving DecidableEq, Repr

/-- A committed transaction: its session, the last read of the last hash in that session, and its
    rows. -/
structure Commit where
  session : Nat
  readAt : Option HashRead
  tables : Tables

/-- The database and the replicas: the rows there were, the transactions committed since, the open
    transactions by session, the last read of the last hash in each session, the caches of the
    replicas and the events handed to the audit sink. -/
structure World where
  base : Tables
  log : List Commit
  txs : AList (fun _ : Nat => Tables)
  lastHashRead : Nat → Option HashRead
  inner : Nat → LedgerState
  emitted : List AuditEvent

/-- The tables after the given transactions. -/
def tablesAfter (base : Tables) (log : List Commit) : Tables :=
  log.foldl (fun t c => t ++ c.tables) base

/-- The committed tables. -/
def World.db (w : World) : Tables := tablesAfter w.base w.log

/-- The committed tables after the first `n` transactions. -/
def World.dbAt (w : World) (n : Nat) : Tables := tablesAfter w.base (w.log.take n)

theorem tablesAfter_concat (base : Tables) (log : List Commit) (c : Commit) :
    tablesAfter base (log ++ [c]) = tablesAfter base log ++ c.tables := by
  unfold tablesAfter
  rw [List.foldl_append]
  rfl

/-- A table after the transactions holds its rows before them and theirs, in commit order. -/
theorem tablesAfter_rows {ρ : Type} (table : Tables → List ρ)
    (happend : ∀ t u, table (t ++ u) = table t ++ table u) (base : Tables) (log : List Commit) :
    table (tablesAfter base log) = table base ++ log.flatMap fun c => table c.tables := by
  induction log using List.reverseRecOn with
  | nil => simp [tablesAfter]
  | append_singleton log c ih =>
    rw [tablesAfter_concat, happend, ih, List.flatMap_append, List.append_assoc]
    simp

theorem tablesAfter_entries (base : Tables) (log : List Commit) :
    (tablesAfter base log).entries = base.entries ++ log.flatMap (·.tables.entries) :=
  tablesAfter_rows Tables.entries append_entries base log

theorem tablesAfter_postings (base : Tables) (log : List Commit) :
    (tablesAfter base log).postings = base.postings ++ log.flatMap (·.tables.postings) :=
  tablesAfter_rows Tables.postings append_postings base log

theorem tablesAfter_hasPosting (base : Tables) (log : List Commit) (id : String) :
    (tablesAfter base log).HasPosting id ↔
      base.HasPosting id ∨ ∃ c ∈ log, c.tables.HasPosting id := by
  unfold Tables.HasPosting
  rw [tablesAfter_postings]
  constructor
  · intro h
    obtain ⟨row, hrow, hid⟩ := h
    rcases List.mem_append.mp hrow with hbase | hlog
    · exact Or.inl ⟨row, hbase, hid⟩
    · obtain ⟨c, hc, hcrow⟩ := List.mem_flatMap.mp hlog
      exact Or.inr ⟨c, hc, row, hcrow, hid⟩
  · intro h
    rcases h with ⟨row, hrow, hid⟩ | ⟨c, hc, row, hrow, hid⟩
    · exact ⟨row, List.mem_append_left _ hrow, hid⟩
    · exact ⟨row, List.mem_append_right _ (List.mem_flatMap.mpr ⟨c, hc, hrow⟩), hid⟩

theorem dbAt_length (w : World) : w.dbAt w.log.length = w.db := by
  unfold World.dbAt World.db
  rw [List.take_length]

/-- The entries at a later moment are those at an earlier one and what was committed between. -/
theorem dbAt_split (w : World) {n k : Nat} (h : n ≤ k) : (w.dbAt k).entries =
    (w.dbAt n).entries ++ ((w.log.take k).drop n).flatMap (·.tables.entries) := by
  have htake : w.log.take k = w.log.take n ++ (w.log.take k).drop n := by
    have hcut := List.take_append_drop n (w.log.take k)
    rw [List.take_take, Nat.min_eq_left h] at hcut
    exact hcut.symm
  unfold World.dbAt
  rw [tablesAfter_entries, tablesAfter_entries, List.append_assoc, ← List.flatMap_append, ← htake]

/-! ## 2. Statements -/

inductive Stmt where
  | selectPosting (postingId : String)
  | selectEntriesOf (postingId : String)
  | selectStatus (accountId : String)
  | selectTypeName (accountId : String)
  | selectLastHash
  | selectMaxSequence
  | selectEntries
  | begin
  | insertPosting (row : PostingRow)
  | insertEntry (row : EntryRow)
  | insertAnchor (row : AnchorRow)
  | commit
  | rollback
  /-- Not a statement: the replica updates its own `LedgerState`. -/
  | cache (f : LedgerState → LedgerState)
  /-- Not a statement: the replica hands an event to its audit sink. -/
  | emit (event : AuditEvent)

/-- What a statement answers: a result, or the text of an error. -/
abbrev Reply : Stmt → Type
  | .selectPosting _ => Except String (Option PostingRow)
  | .selectEntriesOf _ => Except String (List EntryRow)
  | .selectStatus _ => Except String (Option String)
  | .selectTypeName _ => Except String (Option String)
  | .selectLastHash => Except String (Option String)
  | .selectMaxSequence => Except String Nat
  | .selectEntries => Except String (List EntryRow)
  | .begin => Except String Unit
  | .insertPosting _ => Except String Nat
  | .insertEntry _ => Except String Unit
  | .insertAnchor _ => Except String Unit
  | .commit => Except String Unit
  | .rollback => Unit
  | .cache _ => Unit
  | .emit _ => Unit

/-- The statement failed, or its result meets `p`. -/
def Answers {α : Type} (r : Except String α) (p : α → Prop) : Prop := ∀ a, r = .ok a → p a

/-- No row of another open transaction, of this one or of the committed tables meets `p`. -/
def World.Free (w : World) (p : Tables → Prop) : Prop :=
  ¬ p w.db ∧ ∀ j u, w.txs.lookup j = some u → ¬ p u

def World.setTx (w : World) (i : Nat) (t : Tables) : World := { w with txs := w.txs.insert i t }

def World.discard (w : World) (i : Nat) : World := { w with txs := w.txs.erase i }

def World.applyCommit (w : World) (i : Nat) (t : Tables) : World :=
  { w with log := w.log ++ [⟨i, w.lastHashRead i, t⟩], txs := w.txs.erase i }

/-- `last_entry_hash_from_db` on the result of its read: an error counts as no hash. -/
def foundHash : Except String (Option String) → Option String
  | .ok h => h
  | .error _ => none

/-- The session has read the last hash. -/
def World.readLastHash (w : World) (i : Nat) (r : Except String (Option String)) : World :=
  { w with lastHashRead := Function.update w.lastHashRead i (some ⟨w.log.length, foundHash r⟩) }

theorem readLastHash_self (w : World) (i : Nat) (r : Except String (Option String)) :
    (w.readLastHash i r).lastHashRead i = some ⟨w.log.length, foundHash r⟩ :=
  Function.update_self ..

def Tables.addPosting (t : Tables) (row : PostingRow) : Tables :=
  { t with postings := t.postings ++ [row] }

def Tables.addEntry (t : Tables) (row : EntryRow) : Tables :=
  { t with entries := t.entries ++ [row] }

def Tables.addAnchor (t : Tables) (row : AnchorRow) : Tables :=
  { t with hashChain := t.hashChain ++ [row] }

/-- The constraints of the schema on a row of `entries`, within the transaction `t`. -/
def World.AdmitsEntry (w : World) (t : Tables) (row : EntryRow) : Prop :=
  w.Free (·.HasEntry row.entryId) ∧ (w.db.HasPosting row.postingId ∨ t.HasPosting row.postingId) ∧
    w.db.HasAccount row.accountId ∧ 0 < row.amount

/-! ## 3. What a statement may do -/

/-- **A statement of session `i`**, whose replica is `replica i`, may answer `r` and leave `w'`. -/
def Exec (replica : Nat → Nat) (i : Nat) : (o : Stmt) → World → Reply o → World → Prop
  | .selectPosting id, w, r, w' => w' = w ∧
      Answers r (· = w.db.postings.find? fun row => row.postingId == id)
  | .selectEntriesOf id, w, r, w' => w' = w ∧ Answers r (Ordered (entriesOf w.db.entries id))
  | .selectStatus id, w, r, w' => w' = w ∧
      Answers r (· = (w.db.accounts.find? fun row => row.accountId == id).map (·.status))
  | .selectTypeName id, w, r, w' => w' = w ∧
      Answers r (· = (w.db.accounts.find? fun row => row.accountId == id).map (·.typeName))
  | .selectLastHash, w, r, w' => w' = w.readLastHash i r ∧ Answers r (IsLastHash w.db.entries)
  | .selectMaxSequence, w, r, w' => w' = w ∧ Answers r (· = maxSequence w.db.entries)
  | .selectEntries, w, r, w' => w' = w ∧ Answers r (Ordered w.db.entries)
  | .begin, w, r, w' => (∃ e, r = .error e ∧ w' = w) ∨ (r = .ok () ∧ w' = w.setTx i .empty)
  | .insertPosting row, w, r, w' => (∃ e, r = .error e ∧ w' = w) ∨
      ∃ t, w.txs.lookup i = some t ∧
        (r = .ok 0 ∧ (w.db.HasPosting row.postingId ∨ t.HasPosting row.postingId) ∧ w' = w ∨
        r = .ok 1 ∧ w.Free (·.HasPosting row.postingId) ∧ w' = w.setTx i (t.addPosting row))
  | .insertEntry row, w, r, w' => (∃ e, r = .error e ∧ w' = w) ∨
      ∃ t, w.txs.lookup i = some t ∧ r = .ok () ∧ w.AdmitsEntry t row ∧
        w' = w.setTx i (t.addEntry row)
  | .insertAnchor row, w, r, w' => (∃ e, r = .error e ∧ w' = w) ∨
      ∃ t, w.txs.lookup i = some t ∧ r = .ok () ∧
        (w.db.HasPosting row.postingId ∨ t.HasPosting row.postingId) ∧
        ((w.db.HasAnchor row.postingId ∨ t.HasAnchor row.postingId) ∧ w' = w ∨
        w.Free (·.HasAnchor row.postingId) ∧ w' = w.setTx i (t.addAnchor row))
  -- nothing is said of the answer to a commit that was applied
  | .commit, w, r, w' => (∃ e, r = .error e ∧ w' = w.discard i) ∨
      ∃ t, w.txs.lookup i = some t ∧ w' = w.applyCommit i t
  | .rollback, w, _, w' => w' = w.discard i
  | .cache f, w, _, w' =>
      w' = { w with inner := Function.update w.inner (replica i) (f (w.inner (replica i))) }
  | .emit event, w, _, w' => w' = { w with emitted := w.emitted ++ [event] }

/-! ## 4. What a statement changes and leaves alone -/

/-- **What a statement of session `i` can do to the world**; only a commit adds to the log, and a
    transaction gains no row of `postings` but one whose key nobody else holds. -/
inductive Effect (i : Nat) (o : Stmt) (w : World) : World → Prop where
  | keep : Effect i o w w
  | read (r : Except String (Option String)) : Effect i o w (w.readLastHash i r)
  | write (t : Tables)
      (keys : ∀ id, t.HasPosting id → w.Free (·.HasPosting id) ∨
        ∃ u, w.txs.lookup i = some u ∧ u.HasPosting id) : Effect i o w (w.setTx i t)
  | drop : Effect i o w (w.discard i)
  | apply (t : Tables) (commits : o = .commit) (opened : w.txs.lookup i = some t) :
      Effect i o w (w.applyCommit i t)
  | replica (inner : Nat → LedgerState) (emitted : List AuditEvent) :
      Effect i o w { w with inner := inner, emitted := emitted }

theorem addPosting_keys {w : World} {i : Nat} {t : Tables} {row : PostingRow}
    (ht : w.txs.lookup i = some t) (hfree : w.Free (·.HasPosting row.postingId)) (id : String)
    (hid : (t.addPosting row).HasPosting id) : w.Free (·.HasPosting id) ∨
      ∃ u, w.txs.lookup i = some u ∧ u.HasPosting id := by
  obtain ⟨row', hrow, rfl⟩ := hid
  rcases List.mem_append.mp hrow with hrow | hrow
  · exact Or.inr ⟨t, ht, row', hrow, rfl⟩
  · rw [List.mem_singleton.mp hrow]
    exact Or.inl hfree

theorem exec_effect {replica : Nat → Nat} {i : Nat} {w w' : World} {o : Stmt} {r : Reply o}
    (he : Exec replica i o w r w') : Effect i o w w' := by
  cases o with
  | selectPosting id => rw [he.1]; exact .keep
  | selectEntriesOf id => rw [he.1]; exact .keep
  | selectStatus id => rw [he.1]; exact .keep
  | selectTypeName id => rw [he.1]; exact .keep
  | selectMaxSequence => rw [he.1]; exact .keep
  | selectEntries => rw [he.1]; exact .keep
  | selectLastHash => rw [he.1]; exact .read r
  | begin =>
    rcases he with ⟨_, _, rfl⟩ | ⟨_, rfl⟩
    · exact .keep
    · exact .write _ fun id ⟨_, hrow, _⟩ => absurd hrow List.not_mem_nil
  | insertPosting row =>
    rcases he with ⟨_, _, rfl⟩ | ⟨t, ht, ⟨_, _, rfl⟩ | ⟨_, hfree, rfl⟩⟩
    · exact .keep
    · exact .keep
    · exact .write _ (addPosting_keys ht hfree)
  | insertEntry row =>
    rcases he with ⟨_, _, rfl⟩ | ⟨t, ht, _, _, rfl⟩
    · exact .keep
    · exact .write _ fun id hid => Or.inr ⟨t, ht, hid⟩
  | insertAnchor row =>
    rcases he with ⟨_, _, rfl⟩ | ⟨t, ht, _, _, ⟨_, rfl⟩ | ⟨_, rfl⟩⟩
    · exact .keep
    · exact .keep
    · exact .write _ fun id hid => Or.inr ⟨t, ht, hid⟩
  | commit =>
    rcases he with ⟨_, _, rfl⟩ | ⟨t, ht, rfl⟩
    · exact .drop
    · exact .apply t rfl ht
  | rollback => rw [he]; exact .drop
  | cache f => rw [he]; exact .replica _ _
  | emit event => rw [he]; exact .replica _ _

/-- What another session's steps leave to session `i`: its own transaction and its own read of the
    last hash, and everything committed so far. -/
structure Rely (i : Nat) (w w' : World) : Prop where
  base : w'.base = w.base
  log : w.log <+: w'.log
  tx : w'.txs.lookup i = w.txs.lookup i
  read : w'.lastHashRead i = w.lastHashRead i

theorem Rely.refl (i : Nat) (w : World) : Rely i w w := ⟨rfl, List.prefix_rfl, rfl, rfl⟩

theorem Rely.trans {i : Nat} {w w' w'' : World} (h : Rely i w w') (h' : Rely i w' w'') :
    Rely i w w'' :=
  ⟨h'.base.trans h.base, h.log.trans h'.log, h'.tx.trans h.tx, h'.read.trans h.read⟩

/-- **A statement of one session lies within the rely of every other.** -/
theorem exec_frame {replica : Nat → Nat} {i j : Nat} (h : i ≠ j) {w w' : World} (o : Stmt)
    (r : Reply o) (he : Exec replica i o w r w') : Rely j w w' := by
  cases exec_effect he with
  | keep => exact Rely.refl j w
  | read r => exact ⟨rfl, List.prefix_rfl, rfl, Function.update_of_ne (Ne.symm h) _ _⟩
  | write t keys => exact ⟨rfl, List.prefix_rfl, AList.lookup_insert_ne (Ne.symm h), rfl⟩
  | drop => exact ⟨rfl, List.prefix_rfl, AList.lookup_erase_ne (Ne.symm h), rfl⟩
  | apply t commits opened =>
    exact ⟨rfl, List.prefix_append _ _, AList.lookup_erase_ne (Ne.symm h), rfl⟩
  | replica inner emitted => exact ⟨rfl, List.prefix_rfl, rfl, rfl⟩

/-- Only a commit changes what is committed. -/
theorem exec_log {replica : Nat → Nat} {i : Nat} {w w' : World} {o : Stmt} {r : Reply o}
    (he : Exec replica i o w r w') (ho : o ≠ .commit) : w'.base = w.base ∧ w'.log = w.log := by
  cases exec_effect he with
  | keep => exact ⟨rfl, rfl⟩
  | read r => exact ⟨rfl, rfl⟩
  | write t keys => exact ⟨rfl, rfl⟩
  | drop => exact ⟨rfl, rfl⟩
  | apply t commits opened => exact absurd commits ho
  | replica inner emitted => exact ⟨rfl, rfl⟩

/-! ## 5. Runs in which nothing fails -/

/-- The statement without a failure; `none` while it has to wait. -/
def exec (replica : Nat → Nat) (i : Nat) : (o : Stmt) → World → Option (Reply o × World)
  | .selectPosting id, w =>
    some (.ok (w.db.postings.find? fun row => row.postingId == id), w)
  | .selectEntriesOf id, w => some (.ok (bySequence (entriesOf w.db.entries id)), w)
  | .selectStatus id, w =>
    some (.ok ((w.db.accounts.find? fun row => row.accountId == id).map (·.status)), w)
  | .selectTypeName id, w =>
    some (.ok ((w.db.accounts.find? fun row => row.accountId == id).map (·.typeName)), w)
  | .selectLastHash, w =>
    let r := (bySequence w.db.entries).getLast?.map (·.thisHash)
    some (.ok r, w.readLastHash i (.ok r))
  | .selectMaxSequence, w => some (.ok (maxSequence w.db.entries), w)
  | .selectEntries, w => some (.ok (bySequence w.db.entries), w)
  | .begin, w => some (.ok (), w.setTx i .empty)
  | .insertPosting row, w =>
    match w.txs.lookup i with
    | none => none
    | some t =>
      if w.db.HasPosting row.postingId ∨ t.HasPosting row.postingId then some (.ok 0, w)
      else if ∃ p ∈ w.txs.entries, p.2.HasPosting row.postingId then none
      else some (.ok 1, w.setTx i (t.addPosting row))
  | .insertEntry row, w =>
    match w.txs.lookup i with
    | none => none
    | some t =>
      if (¬ w.db.HasEntry row.entryId ∧ ∀ p ∈ w.txs.entries, ¬ p.2.HasEntry row.entryId) ∧
          (w.db.HasPosting row.postingId ∨ t.HasPosting row.postingId) ∧
          w.db.HasAccount row.accountId ∧ 0 < row.amount then
        some (.ok (), w.setTx i (t.addEntry row))
      else none
  | .insertAnchor row, w =>
    match w.txs.lookup i with
    | none => none
    | some t =>
      if w.db.HasPosting row.postingId ∨ t.HasPosting row.postingId then
        if w.db.HasAnchor row.postingId ∨ t.HasAnchor row.postingId then some (.ok (), w)
        else if ∃ p ∈ w.txs.entries, p.2.HasAnchor row.postingId then none
        else some (.ok (), w.setTx i (t.addAnchor row))
      else none
  | .commit, w => (w.txs.lookup i).map fun t => (.ok (), w.applyCommit i t)
  | .rollback, w => some ((), w.discard i)
  | .cache f, w =>
    some ((), { w with inner := Function.update w.inner (replica i) (f (w.inner (replica i))) })
  | .emit event, w => some ((), { w with emitted := w.emitted ++ [event] })

theorem answers_ok {α : Type} {a : α} {p : α → Prop} (h : p a) : Answers (.ok a) p := by
  intro b hb
  cases hb
  exact h

theorem free_of_entries {w : World} {p : Tables → Prop} (hdb : ¬ p w.db)
    (htxs : ∀ q ∈ w.txs.entries, ¬ p q.2) : w.Free p :=
  ⟨hdb, fun _ _ hl => htxs _ (AList.mem_lookup_iff.mp hl)⟩

theorem getLast_isLastHash (l : List EntryRow) :
    IsLastHash l ((bySequence l).getLast?.map (·.thisHash)) := by
  have hlast := bySequence_last l
  cases h : (bySequence l).getLast? with
  | none =>
    rw [h] at hlast
    exact hlast
  | some e =>
    rw [h] at hlast
    exact ⟨e, hlast.1, rfl, hlast.2⟩

/-- **The executable run is a run of the database.** -/
theorem exec_sound (replica : Nat → Nat) (i : Nat) (o : Stmt) (w : World) (r : Reply o) (w' : World)
    (h : exec replica i o w = some (r, w')) : Exec replica i o w r w' := by
  cases o with
  | selectPosting id => cases h; exact ⟨rfl, answers_ok rfl⟩
  | selectEntriesOf id => cases h; exact ⟨rfl, answers_ok (bySequence_ordered _)⟩
  | selectStatus id => cases h; exact ⟨rfl, answers_ok rfl⟩
  | selectTypeName id => cases h; exact ⟨rfl, answers_ok rfl⟩
  | selectLastHash => cases h; exact ⟨rfl, answers_ok (getLast_isLastHash _)⟩
  | selectMaxSequence => cases h; exact ⟨rfl, answers_ok rfl⟩
  | selectEntries => cases h; exact ⟨rfl, answers_ok (bySequence_ordered _)⟩
  | begin => cases h; exact Or.inr ⟨rfl, rfl⟩
  | insertPosting row =>
    simp only [exec] at h
    split at h
    · cases h
    · rename_i t ht
      split at h
      · rename_i hin
        cases h
        exact Or.inr ⟨t, ht, Or.inl ⟨rfl, hin, rfl⟩⟩
      · rename_i hout
        split at h
        · cases h
        · rename_i hfree
          cases h
          push Not at hout hfree
          exact Or.inr ⟨t, ht, Or.inr ⟨rfl, free_of_entries hout.1 hfree, rfl⟩⟩
  | insertEntry row =>
    simp only [exec] at h
    split at h
    · cases h
    · rename_i t ht
      split at h
      · rename_i hok
        cases h
        exact Or.inr ⟨t, ht, rfl, ⟨free_of_entries hok.1.1 hok.1.2, hok.2⟩, rfl⟩
      · cases h
  | insertAnchor row =>
    simp only [exec] at h
    split at h
    · cases h
    · rename_i t ht
      split at h
      · rename_i hposting
        split at h
        · rename_i hin
          cases h
          exact Or.inr ⟨t, ht, rfl, hposting, Or.inl ⟨hin, rfl⟩⟩
        · rename_i hout
          split at h
          · cases h
          · rename_i hfree
            cases h
            push Not at hout hfree
            exact Or.inr ⟨t, ht, rfl, hposting, Or.inr ⟨free_of_entries hout.1 hfree, rfl⟩⟩
      · cases h
  | commit =>
    obtain ⟨t, ht, hpair⟩ := Option.map_eq_some_iff.mp h
    cases hpair
    exact Or.inr ⟨t, ht, rfl⟩
  | rollback => cases h; rfl
  | cache f => cases h; rfl
  | emit event => cases h; rfl

end LedgerAccounting
