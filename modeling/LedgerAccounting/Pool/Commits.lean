/-
  File:      LedgerAccounting/Pool/Commits.lean
  Subject:   What the committed transactions of concurrent `post` calls look like: one posting
             each, with the entries the in-memory loop would have created from a sequence number
             and a hash read earlier.

  * `exec_keyInv`: the primary key of `postings`, over committed and pending rows.
  * `numberFrom_eq`: the entries hashed first and numbered later are those of the in-memory loop.
  * `PoolInv`: the invariant of every interleaving.
  * `entriesOf_committed`: the rows of a posting are those of its transaction.
-/
import LedgerAccounting.Lib.Paging
import LedgerAccounting.Pool.Post
import LedgerAccounting.Store.PostSpec

namespace LedgerAccounting

open Script

/-! ## 1. The primary key of `postings` -/

/-- No two transactions, committed or pending, hold a row of `postings` with the same key, and no
    pending one holds the key of a committed row. -/
structure KeyInv (w : World) : Prop where
  committed : w.log.Pairwise fun c d => ∀ id, c.tables.HasPosting id → ¬ d.tables.HasPosting id
  pending : ∀ j t, w.txs.lookup j = some t → ∀ id, t.HasPosting id → ¬ w.db.HasPosting id
  exclusive : ∀ i j t u, i ≠ j → w.txs.lookup i = some t → w.txs.lookup j = some u →
    ∀ id, t.HasPosting id → ¬ u.HasPosting id

section Keys

variable {w : World} {i : Nat}

theorem lookup_discard {j : Nat} {u : Tables} (h : (w.txs.erase i).lookup j = some u) :
    j ≠ i ∧ w.txs.lookup j = some u := by
  by_cases hj : j = i
  · rw [hj, AList.lookup_erase] at h
    cases h
  · exact ⟨hj, (AList.lookup_erase_ne hj).symm.trans h⟩

theorem setTx_cases {t : Tables} {j : Nat} {u : Tables}
    (h : (w.setTx i t).txs.lookup j = some u) :
    j = i ∧ u = t ∨ j ≠ i ∧ w.txs.lookup j = some u := by
  by_cases hj : j = i
  · subst hj
    rw [show (w.setTx j t).txs = w.txs.insert j t from rfl, AList.lookup_insert] at h
    cases h
    exact Or.inl ⟨rfl, rfl⟩
  · exact Or.inr ⟨hj, (AList.lookup_insert_ne hj).symm.trans h⟩

theorem applyCommit_db (t : Tables) : (w.applyCommit i t).db = w.db ++ t :=
  tablesAfter_concat _ _ _

/-- No open transaction holds the key of a committed row or of another open transaction, whatever
    table `has` speaks of. -/
structure Apart (has : Tables → String → Prop) (w : World) : Prop where
  pending : ∀ j t, w.txs.lookup j = some t → ∀ id, has t id → ¬ has w.db id
  exclusive : ∀ i j t u, i ≠ j → w.txs.lookup i = some t → w.txs.lookup j = some u →
    ∀ id, has t id → ¬ has u id

variable {has : Tables → String → Prop}

theorem Apart.discard (h : Apart has w) : Apart has (w.discard i) where
  pending j t hj := h.pending j t (lookup_discard hj).2
  exclusive j k t u hjk hj hk := h.exclusive j k t u hjk (lookup_discard hj).2 (lookup_discard hk).2

/-- A transaction whose keys are free ones or keys it had. -/
theorem Apart.setTx {t : Tables} (h : Apart has w)
    (hold : ∀ id, has t id → w.Free (has · id) ∨ ∃ u, w.txs.lookup i = some u ∧ has u id) :
    Apart has (w.setTx i t) := by
  have hothers : ∀ j u, j ≠ i → w.txs.lookup j = some u → ∀ id, has t id → ¬ has u id := by
    intro j u hji hj id hid
    rcases hold id hid with hfree | ⟨v, hv, hvid⟩
    · exact hfree.2 j u hj
    · exact h.exclusive i j v u (Ne.symm hji) hv hj id hvid
  refine ⟨fun j u hj id hu => ?_, fun j k u v hjk hj hk id hu hv => ?_⟩
  · rcases setTx_cases hj with ⟨rfl, rfl⟩ | ⟨_, hju⟩
    · rcases hold id hu with hfree | ⟨v, hv, hvid⟩
      · exact hfree.1
      · exact h.pending _ v hv id hvid
    · exact h.pending j u hju id hu
  · rcases setTx_cases hj with ⟨rfl, rfl⟩ | ⟨hji, hju⟩
    · rcases setTx_cases hk with ⟨rfl, rfl⟩ | ⟨hki, hkv⟩
      · exact hjk rfl
      · exact hothers k v hki hkv id hu hv
    · rcases setTx_cases hk with ⟨rfl, rfl⟩ | ⟨_, hkv⟩
      · exact hothers j u hji hju id hv hu
      · exact h.exclusive j k u v hjk hju hkv id hu hv

theorem Apart.applyCommit {t : Tables} (h : Apart has w) (ht : w.txs.lookup i = some t)
    (happend : ∀ t u id, has (t ++ u) id → has t id ∨ has u id) :
    Apart has (w.applyCommit i t) := by
  refine ⟨fun j u hj id hu hin => ?_, fun j k u v hjk hj hk => ?_⟩
  · obtain ⟨hji, hj⟩ := lookup_discard hj
    rw [applyCommit_db] at hin
    rcases happend _ _ id hin with hin | hin
    · exact h.pending j u hj id hu hin
    · exact h.exclusive j i u t hji hj ht id hu hin
  · exact h.exclusive j k u v hjk (lookup_discard hj).2 (lookup_discard hk).2

theorem KeyInv.apart (h : KeyInv w) : Apart Tables.HasPosting w := ⟨h.pending, h.exclusive⟩

theorem keyInv_discard (h : KeyInv w) : KeyInv (w.discard i) :=
  ⟨h.committed, h.apart.discard.pending, h.apart.discard.exclusive⟩

theorem keyInv_setTx {t : Tables} (h : KeyInv w)
    (hold : ∀ id, t.HasPosting id → w.Free (·.HasPosting id) ∨
      ∃ u, w.txs.lookup i = some u ∧ u.HasPosting id) : KeyInv (w.setTx i t) :=
  ⟨h.committed, (h.apart.setTx hold).pending, (h.apart.setTx hold).exclusive⟩

theorem keyInv_applyCommit {t : Tables} (h : KeyInv w) (ht : w.txs.lookup i = some t) :
    KeyInv (w.applyCommit i t) := by
  have hapart := h.apart.applyCommit ht fun t u id => (hasPosting_append t u id).mp
  refine ⟨?_, hapart.pending, hapart.exclusive⟩
  refine List.pairwise_append.mpr ⟨h.committed, List.pairwise_singleton _ _, ?_⟩
  intro c hc d hd id hcid hdid
  rw [List.mem_singleton.mp hd] at hdid
  exact h.pending i t ht id hdid ((tablesAfter_hasPosting _ _ _).mpr (Or.inr ⟨c, hc, hcid⟩))

/-- The invariant speaks of the tables and the open transactions only. -/
theorem KeyInv.congr {w' : World} (h : KeyInv w) (hb : w'.base = w.base) (hl : w'.log = w.log)
    (ht : w'.txs = w.txs) : KeyInv w' := by
  have hdb : w'.db = w.db := by unfold World.db; rw [hb, hl]
  constructor
  · rw [hl]; exact h.committed
  · rw [ht, hdb]; exact h.pending
  · rw [ht]; exact h.exclusive

/-- **Every statement keeps the primary key.** -/
theorem exec_keyInv {replica : Nat → Nat} {o : Stmt} {r : Reply o} {w' : World}
    (he : Exec replica i o w r w') (h : KeyInv w) : KeyInv w' := by
  cases exec_effect he with
  | keep => exact h
  | read r => exact h.congr rfl rfl rfl
  | write t keys => exact keyInv_setTx h keys
  | drop => exact keyInv_discard h
  | apply t commits opened => exact keyInv_applyCommit h opened
  | replica inner emitted => exact h.congr rfl rfl rfl

end Keys

/-! ## 2. Entries that are hashed first and numbered later -/

/-- The entries as `insertEntries` numbers them, after the number `m`. -/
def numberFrom : Nat → List EntryRecord → List EntryRecord
  | _, [] => []
  | m, e :: rest => { e with sequenceNumber := m + 1 } :: numberFrom (m + 1) rest

theorem numberFrom_concat (m : Nat) (l : List EntryRecord) (e : EntryRecord) :
    numberFrom m (l ++ [e]) =
      numberFrom m l ++ [{ e with sequenceNumber := m + l.length + 1 }] := by
  induction l generalizing m with
  | nil => rfl
  | cons a l ih =>
    have hlen : m + 1 + l.length = m + (a :: l).length := by
      rw [List.length_cons]
      omega
    rw [List.cons_append, numberFrom, ih, hlen]
    rfl

section Booking

variable (digest : ByteArray → String) (salt : String)

/-- The loop of `post_via_memory`, started after the number `m` and the hash `h`. -/
def memoryLoop (call : PoolCall) (m : Nat) (h : String) (parsed : List ParsedEntry) : Loop :=
  parsed.foldl (Loop.push digest salt call.sup (call.sup.nowIso 0) call.req.postingId)
    ⟨m, h, [], []⟩

/-- The loop `l` of `post_via_db`, numbered from `m`, has done what the loop `l'` did. -/
structure NumbersTo (m : Nat) (l : HashLoop) (l' : Loop) : Prop where
  prevHash : l.prevHash = l'.prevHash
  entryIds : l.entryIds = l'.entryIds
  entries : numberFrom m l.createdEntries = l'.createdEntries
  sequence : l'.sequence = m + l.createdEntries.length

/-- **Hashing first and numbering later creates the entries of the in-memory loop.** -/
theorem hashEntries_numbersTo (call : PoolCall) (m : Nat) (h : String) (parsed : List ParsedEntry) :
    NumbersTo m (hashEntries digest salt call.sup (call.sup.nowIso 0) call.req.postingId h parsed)
      (memoryLoop digest salt call m h parsed) := by
  unfold hashEntries memoryLoop
  induction parsed using List.reverseRecOn with
  | nil => exact ⟨rfl, rfl, rfl, rfl⟩
  | append_singleton parsed p ih =>
    rw [List.foldl_append, List.foldl_append]
    generalize parsed.foldl (HashLoop.push digest salt call.sup (call.sup.nowIso 0)
      call.req.postingId) ⟨h, [], []⟩ = l at ih
    generalize parsed.foldl (Loop.push digest salt call.sup (call.sup.nowIso 0)
      call.req.postingId) ⟨m, h, [], []⟩ = l' at ih
    obtain ⟨hprev, hids, hentries, hseq⟩ := ih
    refine ⟨?_, ?_, ?_, ?_⟩
    · simp only [List.foldl_cons, List.foldl_nil, HashLoop.push, Loop.push, makeEntry, hprev, hids]
    · simp only [List.foldl_cons, List.foldl_nil, HashLoop.push, Loop.push, hids]
    · simp only [List.foldl_cons, List.foldl_nil, HashLoop.push, Loop.push, makeEntry,
        numberFrom_concat, hentries, hprev, hids, hseq]
    · simp only [List.foldl_cons, List.foldl_nil, HashLoop.push, Loop.push, List.length_append,
        List.length_singleton, hseq]
      omega

/-! ## 3. The transaction of a fresh posting -/

/-- The rows of a fresh posting: those of the in-memory loop started after `m` and `h`. -/
structure Booked (call : PoolCall) (parsed : List ParsedEntry) (m : Nat) (h : String) (t : Tables) :
    Prop where
  postings : t.postings = [postingRow call.req (call.sup.nowIso 0)
    (memoryLoop digest salt call m h parsed).prevHash]
  entries : t.entries = (memoryLoop digest salt call m h parsed).createdEntries.map (·.row)

section

variable {digest salt} {call : PoolCall} {parsed : List ParsedEntry} {m : Nat} {h : String}
  {t : Tables}

theorem memoryLoop_spec : LoopSpec digest salt (call.sup.nowIso 0) call.req.postingId m h call.sup
    parsed (memoryLoop digest salt call m h parsed) := loop_spec _ _ _ _ _ _

theorem Booked.hasPosting (hb : Booked digest salt call parsed m h t) (id : String) :
    t.HasPosting id ↔ id = call.req.postingId := by
  unfold Tables.HasPosting
  rw [hb.postings]
  simp [postingRow, eq_comm]

theorem Booked.postingId (hb : Booked digest salt call parsed m h t) {e : EntryRow}
    (he : e ∈ t.entries) : e.postingId = call.req.postingId := by
  rw [hb.entries] at he
  obtain ⟨x, hx, rfl⟩ := List.mem_map.mp he
  obtain ⟨p, _, _, _, _, rfl⟩ := Runs.forall₂_mem_right memoryLoop_spec.made hx
  rfl

theorem Booked.numbers (hb : Booked digest salt call parsed m h t) :
    t.entries.map (·.sequenceNumber) = List.range' (m + 1) parsed.length := by
  rw [hb.entries, List.map_map]
  exact memoryLoop_spec.numbers

theorem Booked.increasing (hb : Booked digest salt call parsed m h t) :
    t.entries.Pairwise fun a b => a.sequenceNumber < b.sequenceNumber :=
  Paging.increasing_of_numbered hb.numbers

end

end Booking

/-- What a replay of the posting of the transaction answers. -/
def Tables.response (t : Tables) : Option PostingResponse :=
  t.postings.head?.map fun row =>
    ⟨row.postingId, row.status, t.entries.map (·.entryId), row.hashChainHead⟩

/-! ## 4. Where the numbers and the first hash come from -/

/-- `h` is the hash taken from a read of the last hash that was made when at most `k` transactions
    were committed; the read found the last hash, unless it failed or there was none. -/
def HeadRead (w : World) (readAt : Option HashRead) (k : Nat) (h : String) : Prop :=
  ∃ r, readAt = some r ∧ r.committed ≤ k ∧ h = r.found.getD genesisHash ∧
    (r.found = none ∨ IsLastHash (w.dbAt r.committed).entries r.found)

/-- `m` is the largest sequence number of some moment after that read, when at most `k` transactions
    were committed. -/
def NumberRead (w : World) (readAt : Option HashRead) (k m : Nat) : Prop :=
  ∃ r n, readAt = some r ∧ r.committed ≤ n ∧ n ≤ k ∧ m = maxSequence (w.dbAt n).entries

section Growth

variable {w w' : World} {readAt : Option HashRead} {k k' m : Nat} {h : String}

theorem dbAt_grows (hb : w'.base = w.base) (hl : w.log <+: w'.log) {n : Nat}
    (hn : n ≤ w.log.length) : w'.dbAt n = w.dbAt n := by
  obtain ⟨rest, hrest⟩ := hl
  unfold World.dbAt
  rw [hb, ← hrest, List.take_append_of_le_length hn]

theorem HeadRead.grows (hr : HeadRead w readAt k h) (hb : w'.base = w.base)
    (hl : w.log <+: w'.log) (hk : k ≤ w.log.length) (hkk : k ≤ k') : HeadRead w' readAt k' h := by
  obtain ⟨r, hread, hle, hh, hfound⟩ := hr
  refine ⟨r, hread, hle.trans hkk, hh, ?_⟩
  rwa [dbAt_grows hb hl (hle.trans hk)]

theorem NumberRead.grows (hr : NumberRead w readAt k m) (hb : w'.base = w.base)
    (hl : w.log <+: w'.log) (hk : k ≤ w.log.length) (hkk : k ≤ k') : NumberRead w' readAt k' m := by
  obtain ⟨r, n, hread, hrn, hnk, hm⟩ := hr
  refine ⟨r, n, hread, hrn, hnk.trans hkk, ?_⟩
  rw [hm, dbAt_grows hb hl (hnk.trans hk)]

end Growth

/-! ## 5. The invariant -/

section Invariant

variable (digest : ByteArray → String) (salt : String) (calls : Nat → PoolCall)

/-- The `k`th committed transaction is the fresh posting of the call of its session, with numbers
    and a first `prev_hash` read from what was committed before it. -/
structure Made (w : World) (k : Nat) (c : Commit) (parsed : List ParsedEntry) (m : Nat)
    (h : String) : Prop where
  valid : validateRequest (calls c.session).sup (calls c.session).req = .ok parsed
  booked : Booked digest salt (calls c.session) parsed m h c.tables
  head : HeadRead w c.readAt k h
  number : NumberRead w c.readAt k m

/-- **The invariant of concurrent `post` calls.** -/
structure PoolInv (w : World) : Prop where
  keys : KeyInv w
  made : ∀ k c, w.log[k]? = some c → ∃ parsed m h, Made digest salt calls w k c parsed m h

variable {digest salt calls} {w w' : World}

theorem made_grows (h : PoolInv digest salt calls w) (hb : w'.base = w.base)
    (hl : w.log <+: w'.log) {k : Nat} {c : Commit} (hc : w.log[k]? = some c) :
    ∃ parsed m h, Made digest salt calls w' k c parsed m h := by
  obtain ⟨parsed, m, g, hm⟩ := h.made k c hc
  have hk : k ≤ w.log.length := (List.getElem?_eq_some_iff.mp hc).1.le
  exact ⟨parsed, m, g, hm.valid, hm.booked, hm.head.grows hb hl hk le_rfl,
    hm.number.grows hb hl hk le_rfl⟩

theorem poolInv_start (base : Tables) (inner : Nat → LedgerState) :
    PoolInv digest salt calls (World.start base inner) := by
  refine ⟨⟨List.Pairwise.nil, fun j t hj => ?_, fun i j t u _ ht => ?_⟩, fun k c hc => ?_⟩
  · cases hj
  · cases ht
  · cases hc

/-- **Every statement but a commit keeps the invariant**, whatever the session. -/
theorem exec_poolInv {replica : Nat → Nat} {i : Nat} {o : Stmt} {r : Reply o}
    (he : Exec replica i o w r w') (ho : o ≠ .commit) (h : PoolInv digest salt calls w) :
    PoolInv digest salt calls w' := by
  obtain ⟨hb, hl⟩ := exec_log he ho
  refine ⟨exec_keyInv he h.keys, fun k c hc => ?_⟩
  rw [hl] at hc
  exact made_grows h hb (by rw [hl]) hc

/-- **The commit of a fresh posting keeps the invariant.** -/
theorem commit_poolInv {i m : Nat} {t : Tables} {parsed : List ParsedEntry} {g : String}
    (h : PoolInv digest salt calls w) (ht : w.txs.lookup i = some t)
    (hv : validateRequest (calls i).sup (calls i).req = .ok parsed)
    (hbook : Booked digest salt (calls i) parsed m g t)
    (hhead : HeadRead w (w.lastHashRead i) w.log.length g)
    (hnum : NumberRead w (w.lastHashRead i) w.log.length m) :
    PoolInv digest salt calls (w.applyCommit i t) := by
  have hl : w.log <+: (w.applyCommit i t).log := List.prefix_append _ _
  refine ⟨keyInv_applyCommit h.keys ht, fun k c hc => ?_⟩
  rcases Nat.lt_or_ge k w.log.length with hk | hk
  · rw [show (w.applyCommit i t).log = w.log ++ [⟨i, w.lastHashRead i, t⟩] from rfl,
      List.getElem?_append_left hk] at hc
    exact made_grows h (show (w.applyCommit i t).base = w.base from rfl) hl hc
  · rw [show (w.applyCommit i t).log = w.log ++ [⟨i, w.lastHashRead i, t⟩] from rfl,
      List.getElem?_append_right hk, List.getElem?_singleton] at hc
    split at hc
    · rename_i hzero
      have hkl : k = w.log.length := by omega
      subst hkl
      cases hc
      exact ⟨parsed, m, g, hv, hbook, hhead.grows rfl hl le_rfl le_rfl,
        hnum.grows rfl hl le_rfl le_rfl⟩
    · cases hc

/-- Every committed transaction is the posting of its call. -/
theorem PoolInv.booked (h : PoolInv digest salt calls w) {c : Commit} (hc : c ∈ w.log) :
    ∃ parsed m g, Booked digest salt (calls c.session) parsed m g c.tables := by
  obtain ⟨k, hk⟩ := List.mem_iff_getElem?.mp hc
  obtain ⟨parsed, m, g, hm⟩ := h.made k c hk
  exact ⟨parsed, m, g, hm.booked⟩

/-- A posting has one transaction. -/
theorem PoolInv.unique (h : PoolInv digest salt calls w) {c d : Commit} {id : String}
    (hc : c ∈ w.log) (hd : d ∈ w.log) (hcid : c.tables.HasPosting id)
    (hdid : d.tables.HasPosting id) : c = d := by
  by_contra hne
  have hsym : Std.Symm fun c d : Commit =>
      ∀ id, c.tables.HasPosting id → ¬ d.tables.HasPosting id :=
    ⟨fun _ _ hcd id h1 h2 => hcd id h2 h1⟩
  exact h.keys.committed.forall hc hd hne id hcid hdid

/-- The posting was not there before the calls. -/
structure Tables.Lacks (t : Tables) (id : String) : Prop where
  posting : ¬ t.HasPosting id
  entries : ∀ e ∈ t.entries, e.postingId ≠ id

/-- **The rows of a posting are those of its transaction.** -/
theorem entriesOf_committed (h : PoolInv digest salt calls w) {id : String}
    (hbase : w.base.Lacks id) {c : Commit} (hc : c ∈ w.log) (hid : c.tables.HasPosting id) :
    entriesOf w.db.entries id = c.tables.entries := by
  have hposting : ∀ d ∈ w.log, ∀ e ∈ d.tables.entries, e.postingId = id →
      d.tables.HasPosting id := by
    intro d hd e he heq
    obtain ⟨_, _, _, hb⟩ := h.booked hd
    rw [hb.hasPosting, ← heq, hb.postingId he]
  have hself : ∀ e ∈ c.tables.entries, e.postingId = id := by
    intro e he
    obtain ⟨_, _, _, hb⟩ := h.booked hc
    rw [(hb.hasPosting id).mp hid, hb.postingId he]
  obtain ⟨a, b, hsplit⟩ := List.append_of_mem hc
  have hkeys := h.keys.committed
  rw [hsplit] at hkeys hposting
  obtain ⟨_, hcb, hac⟩ := List.pairwise_append.mp hkeys
  have hbefore : ∀ e ∈ a.flatMap (·.tables.entries), e.postingId ≠ id := by
    intro e he heq
    obtain ⟨d, hd, hed⟩ := List.mem_flatMap.mp he
    have hdid := hposting d (List.mem_append_left _ hd) e hed heq
    exact hac d hd c List.mem_cons_self id hdid hid
  have hafter : ∀ e ∈ b.flatMap (·.tables.entries), e.postingId ≠ id := by
    intro e he heq
    obtain ⟨d, hd, hed⟩ := List.mem_flatMap.mp he
    have hdid := hposting d (List.mem_append_right _ (List.mem_cons_of_mem _ hd)) e hed heq
    exact (List.pairwise_cons.mp hcb).1 d hd id hid hdid
  have hentries : w.db.entries = w.base.entries ++ (a.flatMap (·.tables.entries) ++
      (c.tables.entries ++ b.flatMap (·.tables.entries))) := by
    unfold World.db
    rw [tablesAfter_entries, hsplit, List.flatMap_append, List.flatMap_cons]
  rw [hentries, entriesOf_append, entriesOf_append, entriesOf_append, entriesOf_none hbase.entries,
    entriesOf_none hbefore, entriesOf_none hafter, entriesOf_all hself]
  simp

end Invariant

end LedgerAccounting
