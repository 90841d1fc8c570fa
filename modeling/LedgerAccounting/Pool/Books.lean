/-
  File:      LedgerAccounting/Pool/Books.lean
  Subject:   The books of the store with a pool: they balance at every moment, however the calls
             of `post` interleave and whenever processes stop and are started again.

  Calls side by side may break the chain of hashes (Pool/Sequence.lean). They leave the books: a
  posting becomes visible with all its entries or not at all, and its entries balance.

  * `Tables.InBalance`: what tables that keep the books satisfy.
  * `InBalance.append`: a fresh posting keeps it.
  * `concurrent_books_balance`: it holds after every commit of every run of the cluster.
-/
import LedgerAccounting.Pool.Cluster
import LedgerAccounting.Pool.Refinement
import LedgerAccounting.Pool.Rows
import LedgerAccounting.Memory.TrialBalance

namespace LedgerAccounting

open Keyed
open DoubleEntry (Balanced)

/-! ## 1. Tables that keep the books -/

/-- The order of its entries does not matter to a well-booked posting. -/
theorem WellBooked.perm {p : PostingRow} {l rows : List EntryRecord}
    (h : WellBooked (p.record l)) (hrows : rows.Perm l) : WellBooked (p.record rows) where
  nonempty hnil := h.nonempty (List.perm_nil.mp (hnil ▸ hrows.symm))
  positive e he := h.positive e (hrows.subset he)
  direction e he := h.direction e (hrows.subset he)
  balanced asset := by
    have hsame := DoubleEntry.value_perm (p := fun l => decide (l.asset = asset))
      (hrows.map (·.line))
    exact hsame.trans (h.balanced asset)

/-- The record `get_posting` builds from a row of `postings`. -/
def Tables.recordOf (t : Tables) (p : PostingRow) : PostingRecord :=
  p.record ((entriesOf t.entries p.postingId).map (·.record))

/-- The keys are distinct, amounts are `u64`s, every posting is well booked, and every entry is
    filed under a posting and booked on an account. -/
structure Tables.InBalance (t : Tables) : Prop where
  accountIds : (t.accounts.map (·.accountId)).Nodup
  postingIds : (t.postings.map (·.postingId)).Nodup
  amounts : ∀ e ∈ t.entries, e.amount < 2 ^ 64
  wellBooked : ∀ p ∈ t.postings, WellBooked (t.recordOf p)
  filed : ∀ e ∈ t.entries, t.HasPosting e.postingId
  booked : ∀ e ∈ t.entries, t.HasAccount e.accountId

/-- The line a row of `entries` books. -/
def EntryRow.line (e : EntryRow) : DoubleEntry.Line String String Int := e.record.line

/-- The same value, booked on the posting instead of the account. -/
def EntryRow.postingLine (e : EntryRow) : DoubleEntry.Line String String Int :=
  ⟨e.postingId, e.asset, e.record.signed⟩

namespace Tables.InBalance

variable {t : Tables}

/-- **Books whose postings balance balance as a whole**: the entries are shared out among the
    postings. -/
theorem balanced (h : t.InBalance) : Balanced (t.entries.map (·.line)) := by
  intro asset
  have hsame : DoubleEntry.value (fun l => decide (l.asset = asset)) (t.entries.map (·.line)) =
      DoubleEntry.value (fun l => decide (l.asset = asset)) (t.entries.map (·.postingLine)) := by
    unfold DoubleEntry.value
    rw [List.filter_map, List.filter_map, List.map_map, List.map_map]
    rfl
  rw [hsame, ← DoubleEntry.sum_value_fiber (·.account) (t.entries.map (·.postingId)).toFinset]
  · refine Finset.sum_eq_zero fun id hid => ?_
    obtain ⟨e, he, heid⟩ := List.mem_map.mp (List.mem_toFinset.mp hid)
    obtain ⟨p, hp, hpid⟩ := h.filed e he
    have hzero := (h.wellBooked p hp).balanced asset
    have hentries : (t.recordOf p).entries.map (·.line) =
        (entriesOf t.entries id).map (·.line) := by
      rw [Tables.recordOf, PostingRow.record, hpid, heid, List.map_map]
      rfl
    rw [hentries] at hzero
    rw [← hzero]
    unfold DoubleEntry.value entriesOf
    rw [List.filter_map, List.filter_map, List.map_map, List.map_map, List.filter_filter]
    refine congrArg List.sum ?_
    refine congrArg (List.map _) (List.filter_congr fun e _ => ?_)
    simp [EntryRow.postingLine, EntryRow.line, EntryRecord.line, EntryRow.record, beq_eq_decide]
  · intro l hl _
    obtain ⟨e, he, rfl⟩ := List.mem_map.mp hl
    exact List.mem_toFinset.mpr (List.mem_map_of_mem he)

theorem direction (h : t.InBalance) {e : EntryRow} (he : e ∈ t.entries) :
    e.direction = "DEBIT" ∨ e.direction = "CREDIT" := by
  obtain ⟨p, hp, hpid⟩ := h.filed e he
  have hin : e.record ∈ (t.recordOf p).entries :=
    List.mem_map_of_mem (List.mem_filter.mpr ⟨he, by simp [hpid]⟩)
  obtain ⟨d, hd⟩ := (h.wellBooked p hp).direction _ hin
  rw [show e.direction = e.record.direction from rfl, hd]
  cases d with
  | debit => exact Or.inl rfl
  | credit => exact Or.inr rfl

/-- The sum the database computes is the balance of the books. -/
theorem sumSigned_eq (h : t.InBalance) (accountId asset : String) :
    sumSigned t.entries accountId asset =
      DoubleEntry.balance (t.entries.map (·.line)) accountId (selects asset) := by
  unfold sumSigned DoubleEntry.balance DoubleEntry.value
  rw [List.filter_map, List.map_map]
  have hempty : asset.isEmpty = (asset == "") := by
    rw [Bool.eq_iff_iff]
    simp
  have hfilter : (t.entries.filter fun e =>
      e.accountId == accountId && (asset == "" || e.asset == asset)) = t.entries.filter
      ((fun l => selects asset l.asset && decide (l.account = accountId)) ∘ EntryRow.line) := by
    refine List.filter_congr fun e _ => ?_
    rw [Bool.eq_iff_iff]
    simp [EntryRow.line, EntryRecord.line, EntryRow.record, selects, hempty, and_comm]
  rw [hfilter]
  refine congrArg List.sum (List.map_congr_left fun e he => ?_)
  have hmem := List.mem_of_mem_filter he
  exact (record_signed (h.amounts e hmem) (h.direction hmem)).symm

/-- **A fresh posting keeps the books**, if its accounts exist. -/
theorem append {digest : ByteArray → String} {salt : String} {call : PoolCall}
    {parsed : List ParsedEntry} {m : Nat} {g : String} {u : Tables} (h : t.InBalance)
    (hv : validateRequest call.sup call.req = .ok parsed)
    (hb : Booked digest salt call parsed m g u)
    (haccounts : u.accounts = []) (hlacks : ¬ t.HasPosting call.req.postingId)
    (hheld : ∀ e ∈ u.entries, t.HasAccount e.accountId) : (t ++ u).InBalance where
  accountIds := by
    rw [append_accounts, haccounts, List.append_nil]
    exact h.accountIds
  postingIds := by
    rw [append_postings, hb.postings, List.map_append, List.nodup_append]
    refine ⟨h.postingIds, List.nodup_singleton _, fun id hid id' hid' heq => hlacks ?_⟩
    obtain ⟨row, hrow, hrid⟩ := List.mem_map.mp hid
    rw [List.mem_singleton.mp hid'] at heq
    exact ⟨row, hrow, hrid.trans heq⟩
  amounts e he := by
    rcases List.mem_append.mp he with he | he
    · exact h.amounts e he
    · obtain ⟨p, hp, hamount, _⟩ := booked_entry hb he
      have hmax := (((validateRequest_ok_iff _ _ _).mp hv).amount p hp).2
      have hbits : maxAmount < 2 ^ 64 := by decide
      rw [hamount]
      exact hmax.trans_lt hbits
  wellBooked p hp := by
    unfold Tables.recordOf
    rw [append_entries, entriesOf_append]
    rcases List.mem_append.mp hp with hp | hp
    · have hnone : entriesOf u.entries p.postingId = [] := entriesOf_none fun e he heq =>
        hlacks ⟨p, hp, heq.symm.trans (hb.postingId he)⟩
      rw [hnone, List.append_nil]
      exact h.wellBooked p hp
    · have hnone : entriesOf t.entries call.req.postingId = [] := by
        refine entriesOf_none fun e he heq => hlacks ?_
        rw [← heq]
        exact h.filed e he
      have hown : entriesOf u.entries call.req.postingId = u.entries :=
        entriesOf_all fun e he => hb.postingId he
      rw [hb.postings, List.mem_singleton] at hp
      rw [hp, show (postingRow call.req _ _).postingId = call.req.postingId from rfl, hnone, hown,
        List.nil_append, booked_records hb hv]
      exact made_wellBooked _ ((validateRequest_ok_iff _ _ _).mp hv) memoryLoop_spec.made
  filed e he := by
    rw [hasPosting_append]
    rcases List.mem_append.mp he with he | he
    · exact Or.inl (h.filed e he)
    · exact Or.inr ((hb.hasPosting _).mpr (hb.postingId he))
  booked e he := by
    unfold Tables.HasAccount
    rw [append_accounts, haccounts, List.append_nil]
    rcases List.mem_append.mp he with he | he
    · exact h.booked e he
    · exact hheld e he

end Tables.InBalance

/-! ## 2. Every entry is booked on an account -/

/-- Every row of `entries`, committed or pending, is booked on an account there was. -/
structure OnAccounts (w : World) : Prop where
  committed : ∀ c ∈ w.log, ∀ e ∈ c.tables.entries, w.base.HasAccount e.accountId
  pending : ∀ j t, w.txs.lookup j = some t → ∀ e ∈ t.entries, w.base.HasAccount e.accountId

section Accounts

variable {w w' : World} {i : Nat}

theorem onAccounts_setTx {t : Tables} (h : OnAccounts w)
    (ht : ∀ e ∈ t.entries, w.base.HasAccount e.accountId) : OnAccounts (w.setTx i t) where
  committed := h.committed
  pending j u hj := by
    rcases setTx_cases hj with ⟨rfl, rfl⟩ | ⟨_, hju⟩
    · exact ht
    · exact h.pending j u hju

/-- The accounts that are committed are those there were. -/
theorem NoAccounts.hasAccount (h : NoAccounts w) (id : String) :
    w.db.HasAccount id ↔ w.base.HasAccount id := by
  unfold Tables.HasAccount
  rw [← dbAt_length, h.dbAt]

theorem rowStep_onAccounts (hs : RowStep i w w') (hnone : NoAccounts w) (h : OnAccounts w) :
    OnAccounts w' := by
  cases hs with
  | same w' base log txs =>
    constructor
    · rw [log, base]; exact h.committed
    · rw [txs, base]; exact h.pending
  | opened => exact onAccounts_setTx h fun e he => absurd he List.not_mem_nil
  | entry t row found admits =>
    refine onAccounts_setTx h fun e he => ?_
    rcases List.mem_append.mp he with he | he
    · exact h.pending i t found e he
    · rw [List.mem_singleton.mp he]
      exact (hnone.hasAccount _).mp admits.2.2.1
  | other t u found accounts entries =>
    exact onAccounts_setTx h (entries ▸ h.pending i t found)
  | drop => exact ⟨h.committed, fun j t hj => h.pending j t (lookup_discard hj).2⟩
  | apply t found =>
    refine ⟨fun c hc => ?_, fun j t hj => h.pending j t (lookup_discard hj).2⟩
    rcases List.mem_append.mp hc with hc | hc
    · exact h.committed c hc
    · rw [List.mem_singleton.mp hc]
      exact h.pending i t found

end Accounts

/-! ## 3. In every run of the cluster -/

section Cluster

variable {digest : ByteArray → String} {salt : String} {calls : Nat → PoolCall}
  {replica : Nat → Nat} {base : Tables} {inner : Nat → LedgerState} {c : Cluster}

/-- The accounts are those there were, and every entry is booked on one of them. -/
theorem cluster_accounts (h : ClusterReach digest salt calls replica base inner c) :
    NoAccounts c.world ∧ OnAccounts c.world := by
  refine cluster_invariant (I := fun w => NoAccounts w ∧ OnAccounts w) ⟨?_, ?_⟩
    (fun f i o w r w' he hI => ?_) h
  · exact ⟨fun c hc => absurd hc List.not_mem_nil, fun j t hj => by cases hj⟩
  · exact ⟨fun c hc => absurd hc List.not_mem_nil, fun j t hj => by cases hj⟩
  · have hrows := exec_rows he
    exact ⟨rowStep_noAccounts hrows hI.1, rowStep_onAccounts hrows hI.1 hI.2⟩

/-- The tables after one more transaction. -/
theorem dbAt_next {w : World} {n : Nat} (hn : n < w.log.length) :
    w.dbAt (n + 1) = w.dbAt n ++ (w.log[n]).tables := by
  unfold World.dbAt
  rw [List.take_succ_eq_append_getElem hn, tablesAfter_concat]

/-- After the last transaction nothing changes any more. -/
theorem dbAt_beyond {w : World} {n : Nat} (hn : w.log.length ≤ n) : w.dbAt n = w.db := by
  unfold World.dbAt World.db
  rw [List.take_of_length_le hn]

/-- A transaction's posting is new to the tables before it. -/
theorem dbAt_lacks (hs : c.Sound digest salt calls replica base) {n : Nat}
    (hn : n < c.world.log.length) {id : String} (hid : (c.world.log[n]).tables.HasPosting id) :
    ¬ (c.world.dbAt n).HasPosting id := by
  intro hin
  rcases (tablesAfter_hasPosting _ _ _).mp hin with hbase | ⟨d, hd, hdid⟩
  · exact hs.addsNew _ (List.getElem_mem hn) id hid hbase
  · obtain ⟨j, hj, rfl⟩ := List.mem_take_iff_getElem.mp hd
    have hjn : j < n := (Nat.lt_min.mp hj).1
    exact List.pairwise_iff_getElem.mp hs.poolInv.keys.committed j n _ hn hjn id hdid hid

/-- **The books are kept at every moment**, in every run of the cluster. -/
theorem cluster_inBalance (hbase : base.InBalance)
    (h : ClusterReach digest salt calls replica base inner c) (n : Nat) :
    (c.world.dbAt n).InBalance := by
  have hs := cluster_sound h
  obtain ⟨hnone, hon⟩ := cluster_accounts h
  induction n with
  | zero =>
    rw [show c.world.dbAt 0 = c.world.base from rfl, hs.base]
    exact hbase
  | succ n ih =>
    rcases Nat.lt_or_ge n c.world.log.length with hn | hn
    · obtain ⟨parsed, m, g, hmade⟩ := hs.poolInv.made n _ (List.getElem?_eq_getElem hn)
      have hmem := List.getElem_mem hn
      rw [dbAt_next hn]
      refine ih.append hmade.valid hmade.booked (hnone.committed _ hmem)
        (dbAt_lacks hs hn ((hmade.booked.hasPosting _).mpr rfl)) fun e he => ?_
      unfold Tables.HasAccount
      rw [hnone.dbAt]
      exact hon.committed _ hmem e he
    · rw [dbAt_beyond (hn.trans (Nat.le_succ n)), ← dbAt_beyond hn]
      exact ih

end Cluster

/-! ## 4. Sums over the accounts -/

/-- The accounts that are not custodial. -/
def otherIds (l : List AccountRow) : List String :=
  (l.filter fun a => !(a.typeName == "user_custodial")).map (·.accountId)

section Sums

variable {t : Tables}

/-- The custodial accounts and the others, as parts of all accounts. -/
theorem custodialIds_filter (l : List AccountRow) :
    (custodialIds l).toFinset =
      (l.map (·.accountId)).toFinset.filter (· ∈ custodialIds l) := by
  ext a
  simp only [List.mem_toFinset, Finset.mem_filter]
  simp only [custodialIds, List.mem_map, List.mem_filter]
  exact ⟨fun ⟨r, hr, hra⟩ => ⟨⟨r, hr.1, hra⟩, r, hr, hra⟩, And.right⟩

theorem otherIds_filter {l : List AccountRow} (hn : (l.map (·.accountId)).Nodup) :
    (otherIds l).toFinset =
      (l.map (·.accountId)).toFinset.filter (· ∉ custodialIds l) := by
  have hinj := List.inj_on_of_nodup_map hn
  ext a
  simp only [List.mem_toFinset, Finset.mem_filter]
  simp only [custodialIds, otherIds, List.mem_map, List.mem_filter]
  constructor
  · rintro ⟨r, ⟨hr, hkind⟩, rfl⟩
    refine ⟨⟨r, hr, rfl⟩, ?_⟩
    rintro ⟨r', ⟨hr', hkind'⟩, hsame⟩
    rw [hinj hr' hr hsame] at hkind'
    simp [hkind'] at hkind
  · rintro ⟨⟨r, hr, rfl⟩, hno⟩
    refine ⟨r, ⟨hr, ?_⟩, rfl⟩
    by_contra hkind
    exact hno ⟨r, ⟨hr, by simpa using hkind⟩, rfl⟩

theorem Tables.InBalance.onAccounts (h : t.InBalance) :
    ∀ l ∈ t.entries.map (·.line), l.account ∈ (t.accounts.map (·.accountId)).toFinset := by
  intro l hl
  obtain ⟨e, he, rfl⟩ := List.mem_map.mp hl
  obtain ⟨a, ha, hae⟩ := h.booked e he
  exact List.mem_toFinset.mpr (List.mem_map.mpr ⟨a, ha, hae⟩)

/-- **The trial balance of the tables.** -/
theorem Tables.InBalance.trial_balance (h : t.InBalance) (asset : String) :
    (t.accounts.map fun a => sumSigned t.entries a.accountId asset).sum = 0 := by
  have hsum := DoubleEntry.trial_balance h.balanced _ h.onAccounts (selects asset)
  rw [List.sum_toFinset _ h.accountIds, List.map_map] at hsum
  rw [← hsum]
  exact congrArg List.sum (List.map_congr_left fun a _ => h.sumSigned_eq a.accountId asset)

/-- **What the custodial accounts hold the other accounts owe.** -/
theorem Tables.InBalance.segregation (h : t.InBalance) (asset : String) {ids : List String}
    (hids : ids.Perm (custodialIds t.accounts)) :
    userCustodialSumDb (.ok ids) (fun id => .ok (sumSigned t.entries id asset)) =
      -((otherIds t.accounts).map fun a => sumSigned t.entries a asset).sum := by
  have hcustodial : (custodialIds t.accounts).Nodup :=
    (List.Sublist.map _ List.filter_sublist).nodup h.accountIds
  have hother : (otherIds t.accounts).Nodup :=
    (List.Sublist.map _ List.filter_sublist).nodup h.accountIds
  have hsplit := DoubleEntry.segregation h.balanced _ h.onAccounts (selects asset)
    (· ∈ custodialIds t.accounts)
  rw [← custodialIds_filter, ← otherIds_filter h.accountIds,
    List.sum_toFinset _ hcustodial, List.sum_toFinset _ hother] at hsplit
  unfold userCustodialSumDb
  dsimp only
  rw [foldl_sums ids (fun id => sumSigned t.entries id asset), zero_add,
    (hids.map fun id => sumSigned t.entries id asset).sum_eq]
  simp only [h.sumSigned_eq]
  exact hsplit

end Sums

/-! ## 5. The books balance -/

/-- **The books balance at every moment of every run of the cluster**, whatever calls overlap, fail
    or are cut off by the stop of a process: every posting the committed tables answer books both
    sides of each asset it mentions, with equal totals; the balances of all accounts sum to zero,
    in each asset and over all assets; and the custodial accounts hold what the other accounts
    owe. -/
theorem concurrent_books_balance (digest : ByteArray → String) (salt : String)
    (calls : Nat → PoolCall) (replica : Nat → Nat) (base : Tables) (inner : Nat → LedgerState)
    (hbase : base.InBalance) (c : Cluster)
    (h : ClusterReach digest salt calls replica base inner c) (n : Nat) (asset : String) :
    let t := c.world.dbAt n
    (∀ id rows rec, Ordered (entriesOf t.entries id) rows →
      getPostingDb (.ok (rowAt PostingRow.postingId t.postings id)) (.ok rows) = some rec →
      2 ≤ rec.entries.length ∧ ∀ e ∈ rec.entries,
        (∃ d ∈ rec.entries, d.asset = e.asset ∧ d.direction = "DEBIT") ∧
        (∃ d ∈ rec.entries, d.asset = e.asset ∧ d.direction = "CREDIT") ∧
        sideTotal rec.entries "DEBIT" e.asset = sideTotal rec.entries "CREDIT" e.asset) ∧
    (t.accounts.map fun a => sumSigned t.entries a.accountId asset).sum = 0 ∧
    ∀ ids, ids.Perm (custodialIds t.accounts) →
      userCustodialSumDb (.ok ids) (fun id => .ok (sumSigned t.entries id asset)) =
        -((otherIds t.accounts).map fun a => sumSigned t.entries a asset).sum := by
  intro t
  have ht : t.InBalance := cluster_inBalance hbase h n
  refine ⟨fun id rows rec hrows hrec => ?_, ht.trial_balance asset,
    fun ids hids => ht.segregation asset hids⟩
  have hwell : WellBooked rec := by
    unfold getPostingDb at hrec
    split at hrec
    · cases hrec
    · cases hrec
    · rename_i p hp
      obtain ⟨hmem, hid⟩ := rowAt_mem (Except.ok.inj hp)
      subst hid
      cases hrec
      exact (ht.wellBooked p hmem).perm (hrows.1.map _)
  exact ⟨hwell.two_le,
    fun e he => ⟨(hwell.both_sides he).1, (hwell.both_sides he).2, hwell.totals_eq e.asset⟩⟩

/-- Two calls with fresh posting ids take turns, statement by statement, and one of their processes
    stops when both have committed. -/
def sampleOverlap : Cluster :=
  ((Cluster.start sampleTables fun _ => .new).turns plainDigest sampleSalt sampleTwo id (exec id)
    (List.replicate 16 [0, 1]).flatten).stop id 1

theorem sampleTables_inBalance : sampleTables.InBalance where
  accountIds := by decide
  postingIds := List.nodup_nil
  amounts _ he := absurd he List.not_mem_nil
  wellBooked _ hp := absurd hp List.not_mem_nil
  filed _ he := absurd he List.not_mem_nil
  booked _ he := absurd he List.not_mem_nil

theorem sampleOverlap_reach : ClusterReach plainDigest sampleSalt sampleTwo id sampleTables
    (fun _ => .new) sampleOverlap :=
  (reach_turns (exec_sound id) _ _).tail (.stop 1 (by decide +kernel))

/-- The two calls share their sequence numbers, and the books balance all the same. -/
theorem concurrent_books_balance_sample :
    sampleOverlap.world.db.entries.map (·.sequenceNumber) = [1, 2, 1, 2] ∧
    ((sampleOverlap.world.dbAt 2).accounts.map fun a =>
      sumSigned (sampleOverlap.world.dbAt 2).entries a.accountId "USD").sum = 0 :=
  ⟨by decide +kernel, (concurrent_books_balance plainDigest sampleSalt sampleTwo id sampleTables
    (fun _ => .new) sampleTables_inBalance sampleOverlap sampleOverlap_reach 2 "USD").2.1⟩

end LedgerAccounting
