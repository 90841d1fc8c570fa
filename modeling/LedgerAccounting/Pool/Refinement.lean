/-
  File:      LedgerAccounting/Pool/Refinement.lean
  Subject:   The store with a pool refines the in-memory store, in calls of `post` that do not
             overlap and in which no statement fails.

  Two posting paths and two sets of reads stay in one relation: the tables and the in-memory state
  hold the same records (`Mirrors`).

  * `reads_agree`: the reads of the two stores agree on what mirrors.
  * `posted_mirrors`: a fresh posting keeps the relation.
  * `pool_refines_memory`: the refinement.
-/
import LedgerAccounting.Pool.Reads
import LedgerAccounting.Pool.Sequential
import LedgerAccounting.Memory.Bookkeeping

namespace LedgerAccounting

open Script Linked Keyed

/-! ## 1. The reads -/

/-- The states hold the same accounts, postings, entries, anchors, counter and head. -/
structure SameLedger (s s' : LedgerState) : Prop where
  accounts : ∀ id, s.accounts.lookup id = s'.accounts.lookup id
  postings : ∀ id, s.postings.lookup id = s'.postings.lookup id
  entries : s.entries = s'.entries
  anchors : ∀ id, s.hashChainAnchors.lookup id = s'.hashChainAnchors.lookup id
  sequence : s.sequence = s'.sequence
  head : s.globalChainHead = s'.globalChainHead

/-- **Every read of the store with a pool answers on the tables what the in-memory store answers**,
    and `hydrate` loads the in-memory ledger. -/
structure ReadsAgree (digest : ByteArray → String) (salt : String) (t : Tables) (s : LedgerState) :
    Prop where
  posting : ∀ id rows, Ordered (entriesOf t.entries id) rows →
    getPostingDb (.ok (rowAt PostingRow.postingId t.postings id)) (.ok rows) = getPosting s id
  balance : ∀ accountId asset,
    balanceDb (.ok ((rowAt AccountRow.accountId t.accounts accountId).map (·.accountId)))
      (.ok (sumSigned t.entries accountId asset)) = balance s accountId asset
  custodialSum : ∀ asset ids, ids.Perm (custodialIds t.accounts) →
    userCustodialSumDb (.ok ids) (fun id => .ok (sumSigned t.entries id asset)) =
      userCustodialSum s asset
  anchor : ∀ id, hashChainAnchorDb (.ok (rowAt AnchorRow.postingId t.hashChain id)) =
    hashChainAnchor s id
  head : ∀ found, IsLastHash t.entries found →
    globalChainHeadDb (.ok found) = globalChainHead s
  verify : ∀ rows, Ordered t.entries rows →
    verifyRows digest salt (.ok rows) = verifyChain digest salt s
  hydrated : ∀ (reads : HydrateReads) (snapshots : List SnapshotRow), reads.Of t snapshots →
    (∀ snap ∈ snapshots, -2 ^ 127 ≤ snap.balance ∧ snap.balance < 2 ^ 127) →
    ∃ s', hydrate reads .new = .ok s' ∧ SameLedger s' s

/-- The tables as posts leave them: sound, with directions of the chart, and every entry and anchor
    filed under a posting. -/
structure Tables.Posted (t : Tables) : Prop extends t.Sound where
  directions : ∀ e ∈ t.entries, e.direction = "DEBIT" ∨ e.direction = "CREDIT"
  entryKeys : ∀ e ∈ t.entries, t.HasPosting e.postingId
  anchorKeys : ∀ a ∈ t.hashChain, t.HasPosting a.postingId

section Reads

variable {digest : ByteArray → String} {salt : String} {t : Tables} {s : LedgerState}

theorem record_signed {e : EntryRow} (ha : e.amount < 2 ^ 64)
    (hd : e.direction = "DEBIT" ∨ e.direction = "CREDIT") :
    e.record.signed = if e.direction = "DEBIT" then (e.amount : Int) else -e.amount := by
  unfold EntryRecord.signed EntryRow.record
  simp only [ha, if_true]
  rcases hd with hd | hd
  · rw [hd]
    rfl
  · rw [hd]
    rfl

/-- The sum the database computes is the balance computed from the entries. -/
theorem sumSigned_eq (ht : t.Posted) (hm : Mirrors t s) (accountId asset : String) :
    sumSigned t.entries accountId asset = computeBalance s accountId asset := by
  have hempty : asset.isEmpty = (asset == "") := by
    rw [Bool.eq_iff_iff]
    simp
  rw [computeBalance_signed]
  unfold sumSigned matching
  rw [hm.entries, List.filter_map, List.filter_map, List.map_map, List.filter_filter, hempty]
  refine congrArg List.sum ?_
  have hsame : (t.entries.filter fun e =>
      e.accountId == accountId && (asset == "" || e.asset == asset)) =
      t.entries.filter fun e => (asset == "" || e.asset == asset) && e.accountId == accountId :=
    List.filter_congr fun e _ => Bool.and_comm _ _
  rw [hsame]
  refine List.map_congr_left fun e he => ?_
  have hmem := List.mem_of_mem_filter he
  exact (record_signed (ht.amounts e hmem) (ht.directions e hmem)).symm

/-- A sum over the custodial accounts, one account after the other. -/
theorem foldl_custodial (l : List (Sigma fun _ : String => Account)) (b : String → Int) (z : Int) :
    l.foldl (fun total p =>
        if p.2.typeName == "user_custodial" then total + b p.1 else total) z =
      z + (((l.filter fun p => p.2.typeName == "user_custodial").map Sigma.fst).map b).sum := by
  induction l generalizing z with
  | nil => simp
  | cons p l ih =>
    rw [List.foldl_cons, ih]
    by_cases hp : p.2.typeName = "user_custodial"
    · simp [hp, Int.add_assoc]
    · simp [hp]

theorem foldl_sums (ids : List String) (b : String → Int) (z : Int) :
    ids.foldl (fun total id => addBalance total (balanceFromDb (.ok (b id)))) z =
      z + (ids.map b).sum := by
  induction ids generalizing z with
  | nil => simp
  | cons id ids ih =>
    rw [List.foldl_cons, ih, List.map_cons, List.sum_cons, ← Int.add_assoc]
    rfl

/-- **Reads of mirrored tables agree with the in-memory reads.** -/
theorem reads_agree (ht : t.Posted) (hm : Mirrors t s) : ReadsAgree digest salt t s where
  posting id rows hrows := by
    have hall : rows = entriesOf t.entries id :=
      ordered_unique hrows (ht.increasing.sublist List.filter_sublist)
    rw [getPosting, hm.postings, hall]
    cases rowAt PostingRow.postingId t.postings id with
    | none => rfl
    | some p => rfl
  balance accountId asset := by
    unfold balance
    rw [hm.accounts, sumSigned_eq ht hm]
    cases rowAt AccountRow.accountId t.accounts accountId with
    | none => rfl
    | some a => rfl
  custodialSum asset ids hids := by
    have hperm := keys_perm ht.accountIds hm.accounts fun a => a.typeName == "user_custodial"
    unfold userCustodialSumDb userCustodialSum
    simp only [sumSigned_eq ht hm]
    rw [foldl_custodial _ fun id => computeBalance s id asset,
      foldl_sums _ fun id => computeBalance s id asset]
    have hall := (hids.trans hperm.symm).map fun id => computeBalance s id asset
    rw [hall.sum_eq]
  anchor id := by
    rw [hashChainAnchor, hm.anchors]
    rfl
  head found hfound := by
    rw [globalChainHead, hm.head, hm.entries]
    exact isLastHash_head ht.increasing hfound
  verify rows hrows := by
    unfold verifyRows verifyChain
    rw [ordered_unique hrows ht.increasing, hm.entries]
  hydrated reads snapshots hreads hsnaps := by
    obtain ⟨s', hok, hm'⟩ := hydrate_spec hreads ht.toSound hsnaps .new
    refine ⟨s', hok, fun id => ?_, fun id => ?_, ?_, fun id => ?_, ?_, ?_⟩
    · rw [hm'.accounts, hm.accounts]
    · rw [hm'.postings, hm.postings]
    · rw [hm'.entries, hm.entries]
    · rw [hm'.anchors, hm.anchors]
    · rw [hm'.sequence, hm.sequence]
    · rw [hm'.head, hm.head, hm'.entries, hm.entries]

end Reads

/-! ## 2. One call -/

section Step

variable {digest : ByteArray → String} {salt : String} {t : Tables} {s : LedgerState}
  {call : PoolCall} {parsed : List ParsedEntry} {clean : Prop} {replica : Nat → Nat} {i : Nat}
  {w w' : World} {rd : Except String (Option String)}

/-- The checks on the tables are the checks on the accounts they hold. -/
theorem checkRows_mirrors (hm : Mirrors t s) (parsed : List ParsedEntry) :
    checkRows t parsed = checkAccounts s parsed := by
  have hactive : checkActiveRow t = checkActive s := by
    funext p
    have hrow : t.account p.accountId = rowAt AccountRow.accountId t.accounts p.accountId := rfl
    unfold checkActiveRow checkActive
    rw [hrow, hm.accounts]
    cases rowAt AccountRow.accountId t.accounts p.accountId with
    | none => rfl
    | some a => rfl
  have hdirection : checkDirectionRow t = checkDirection s := by
    funext p
    have hrow : t.account p.accountId = rowAt AccountRow.accountId t.accounts p.accountId := rfl
    unfold checkDirectionRow checkDirection
    rw [hrow, hm.accounts]
    cases rowAt AccountRow.accountId t.accounts p.accountId with
    | none => rfl
    | some a => rfl
  unfold checkRows checkAccounts
  rw [hactive, hdirection]

/-- A posting is recorded in memory exactly when the table has its row. -/
theorem lookup_none_iff (hm : Mirrors t s) (id : String) :
    s.postings.lookup id = none ↔ ¬ t.HasPosting id := by
  rw [hm.postings, Option.map_eq_none_iff, rowAt_eq_none]
  unfold Tables.HasPosting
  push Not
  rfl

/-- A read of the last hash finds the head of the in-memory chain. -/
theorem startHash_mirrors (ht : t.Posted) (hm : Mirrors t s)
    (hread : Answers rd (IsLastHash t.entries)) (hok : ∃ found, rd = .ok found) :
    startHash rd = s.globalChainHead := by
  obtain ⟨found, rfl⟩ := hok
  rw [hm.head, hm.entries]
  exact isLastHash_head ht.increasing (hread found rfl)

/-- The in-memory loop of the call starts where its rows do. -/
theorem createEntries_mirrors (digest : ByteArray → String) (salt : String) (hm : Mirrors t s)
    (call : PoolCall) (parsed : List ParsedEntry) :
    createEntries digest salt call.sup s call.req.postingId parsed =
      memoryLoop digest salt call (maxSequence t.entries) s.globalChainHead parsed := by
  unfold createEntries memoryLoop
  rw [hm.sequence]

theorem secs_nowIso (sup : Supply) (k : Nat) : toString (secs (sup.nowIso k)) = sup.nowIso k := by
  unfold Supply.nowIso
  rw [secs_toString (sup.clock_lt k)]

/-! ### The tables after a fresh posting -/

variable {u : Tables} {m : Nat} {h : String}

theorem booked_entry (hb : Booked digest salt call parsed m h u) {e : EntryRow}
    (he : e ∈ u.entries) : ∃ p ∈ parsed, e.amount = p.amount ∧ e.direction = p.dir.text := by
  rw [hb.entries] at he
  obtain ⟨x, hx, rfl⟩ := List.mem_map.mp he
  obtain ⟨p, hp, _, _, _, rfl⟩ := Runs.forall₂_mem_right memoryLoop_spec.made hx
  exact ⟨p, hp, rfl, rfl⟩

/-- What the transaction of a fresh posting adds besides its entries. -/
structure Fresh (call : PoolCall) (hashHead : String) (u : Tables) : Prop where
  accounts : u.accounts = []
  postings : u.postings = [postingRow call.req (call.sup.nowIso 0) hashHead]
  anchors : u.hashChain = [anchorRow call.req.postingId (call.sup.nowIso 0) hashHead]

/-- **A fresh posting leaves the tables as posts leave them.** -/
theorem posted_append (ht : t.Posted) (hlacks : ¬ t.HasPosting call.req.postingId)
    (hv : validateRequest call.sup call.req = .ok parsed)
    (hb : Booked digest salt call parsed (maxSequence t.entries) h u) {g : String}
    (hu : Fresh call g u) : (t ++ u).Posted where
  accountIds := by
    rw [show (t ++ u).accounts = t.accounts ++ u.accounts from rfl, hu.accounts, List.append_nil]
    exact ht.accountIds
  postingIds := by
    rw [append_postings, hu.postings, List.map_append, List.nodup_append]
    refine ⟨ht.postingIds, List.nodup_singleton _, fun id hid id' hid' heq => hlacks ?_⟩
    obtain ⟨row, hrow, hrid⟩ := List.mem_map.mp hid
    rw [List.mem_singleton.mp hid'] at heq
    exact ⟨row, hrow, hrid.trans heq⟩
  anchorIds := by
    rw [show (t ++ u).hashChain = t.hashChain ++ u.hashChain from rfl, hu.anchors, List.map_append,
      List.nodup_append]
    refine ⟨ht.anchorIds, List.nodup_singleton _, fun id hid id' hid' heq => hlacks ?_⟩
    obtain ⟨a, ha, haid⟩ := List.mem_map.mp hid
    rw [List.mem_singleton.mp hid'] at heq
    have hposting := ht.anchorKeys a ha
    rw [haid, heq] at hposting
    exact hposting
  amounts e he := by
    rcases List.mem_append.mp he with he | he
    · exact ht.amounts e he
    · obtain ⟨p, hp, hamount, _⟩ := booked_entry hb he
      have hmax := (((validateRequest_ok_iff _ _ _).mp hv).amount p hp).2
      have hbits : maxAmount < 2 ^ 64 := by decide
      rw [hamount]
      exact hmax.trans_lt hbits
  increasing := booked_increasing ht.increasing hb
  directions e he := by
    rcases List.mem_append.mp he with he | he
    · exact ht.directions e he
    · obtain ⟨p, _, _, hdir⟩ := booked_entry hb he
      rw [hdir]
      cases p.dir with
      | debit => exact Or.inl rfl
      | credit => exact Or.inr rfl
  entryKeys e he := by
    rw [hasPosting_append]
    rcases List.mem_append.mp he with he | he
    · exact Or.inl (ht.entryKeys e he)
    · exact Or.inr ((hb.hasPosting _).mpr (hb.postingId he))
  anchorKeys a ha := by
    rw [hasPosting_append]
    rcases List.mem_append.mp ha with ha | ha
    · exact Or.inl (ht.anchorKeys a ha)
    · rw [hu.anchors] at ha
      rw [List.mem_singleton.mp ha]
      exact Or.inr ((hb.hasPosting _).mpr rfl)

theorem maxSequence_booked (hb : Booked digest salt call parsed (maxSequence t.entries) h u) :
    maxSequence (t.entries ++ u.entries) = maxSequence t.entries + parsed.length := by
  rw [maxSequence_append]
  unfold maxSequence at *
  rw [hb.numbers, max_foldr_range']

/-- **A fresh posting keeps the relation**: the tables with its transaction mirror the state with
    its record. -/
theorem mirrors_append (ht : t.Posted) (hm : Mirrors t s)
    (hlacks : ¬ t.HasPosting call.req.postingId)
    (hv : validateRequest call.sup call.req = .ok parsed)
    {l : Loop}
    (hl : l = memoryLoop digest salt call (maxSequence t.entries) s.globalChainHead parsed)
    (hb : Booked digest salt call parsed (maxSequence t.entries) s.globalChainHead u)
    (hu : Fresh call l.prevHash u) : Mirrors (t ++ u) (s.record call.sup call.req l) := by
  have hspec : LoopSpec digest salt (call.sup.nowIso 0) call.req.postingId (maxSequence t.entries)
      s.globalChainHead call.sup parsed l := by
    rw [hl]
    exact memoryLoop_spec
  have hrecords : u.entries.map (·.record) = l.createdEntries := by
    rw [booked_records hb hv, hl]
  have hnow := secs_nowIso call.sup 0
  have hnone : entriesOf t.entries call.req.postingId = [] := by
    refine entriesOf_none fun e he heq => hlacks ?_
    rw [← heq]
    exact ht.entryKeys e he
  have hown : entriesOf u.entries call.req.postingId = u.entries :=
    entriesOf_all fun e he => hb.postingId he
  have hothers : ∀ id, id ≠ call.req.postingId → entriesOf u.entries id = [] := fun id hid =>
    entriesOf_none fun e he heq => hid (heq.symm.trans (hb.postingId he))
  refine ⟨fun id => ?_, fun id => ?_, ?_, fun id => ?_, ?_, ?_⟩
  · rw [show (t ++ u).accounts = t.accounts ++ u.accounts from rfl, hu.accounts, List.append_nil]
    exact hm.accounts id
  · rw [append_postings, append_entries, hu.postings, rowAt_append, rowAt_singleton,
      entriesOf_append]
    by_cases hid : id = call.req.postingId
    · subst hid
      have hrow : rowAt PostingRow.postingId t.postings call.req.postingId = none := by
        rw [← Option.map_eq_none_iff, ← hm.postings]
        exact (lookup_none_iff hm _).mpr hlacks
      rw [record_lookup_self, hrow, hnone, hown, List.nil_append, hrecords]
      simp only [postingRow, if_true, Option.none_or, Option.map_some, PostingRow.record, hnow]
    · have hrow : ¬ (postingRow call.req (call.sup.nowIso 0) l.prevHash).postingId = id :=
        fun heq => hid heq.symm
      rw [record_lookup_ne _ _ _ hid, if_neg hrow, Option.or_none, hothers id hid, List.append_nil]
      exact hm.postings id
  · rw [record_entries, append_entries, List.map_append, hrecords, hm.entries]
  · rw [show (t ++ u).hashChain = t.hashChain ++ u.hashChain from rfl, hu.anchors, rowAt_append,
      rowAt_singleton, record_anchors]
    by_cases hid : id = call.req.postingId
    · subst hid
      have hrow : rowAt AnchorRow.postingId t.hashChain call.req.postingId = none := by
        refine rowAt_eq_none.mpr fun a ha heq => hlacks ?_
        rw [← heq]
        exact ht.anchorKeys a ha
      rw [AList.lookup_insert, hrow]
      simp only [anchorRow, if_true, Option.none_or, Option.map_some, AnchorRow.record, hnow,
        PostingRecord.anchor, Loop.posted]
    · have hrow : ¬ (anchorRow call.req.postingId (call.sup.nowIso 0) l.prevHash).postingId = id :=
        fun heq => hid heq.symm
      rw [AList.lookup_insert_ne hid, if_neg hrow, Option.or_none]
      exact hm.anchors id
  · rw [append_entries, maxSequence_booked hb]
    exact hspec.sequence
  · have hchain : entriesHead genesisHash (s.entries ++ l.createdEntries) =
        entriesHead (entriesHead genesisHash s.entries) l.createdEntries := headFrom_append _ _ _ _
    rw [record_globalChainHead, record_entries, hspec.prevHash, hchain, ← hm.head]

/-- **One call keeps the relation and answers alike**, whatever way it ends. -/
theorem post_simulates (ht : w.db.Posted) (hm : Mirrors w.db s)
    {r : Except PostError (PostingResponse × Bool)}
    (hout : PostOutcome digest salt call True replica i w r w') :
    (post digest salt call.sup call.req s).1 = r ∧ w'.db.Posted ∧
      Mirrors w'.db (post digest salt call.sup call.req s).2 := by
  cases hout with
  | refused e why =>
    have hrefused : post digest salt call.sup call.req s = (.error e, s) := by
      rcases why trivial with hv | ⟨parsed, hv, hlacks, hrows⟩
      · simp only [post, hv]
      · rw [checkRows_mirrors hm] at hrows
        simp only [post, hv, postViaMemory, (lookup_none_iff hm _).mpr hlacks, hrows]
    rw [hrefused]
    exact ⟨rfl, ht, hm⟩
  | abandoned e rd dirty => exact absurd trivial dirty
  | unacknowledged e parsed rd dirty fresh => exact absurd trivial dirty
  | replayed parsed row entries valid found ordered =>
    have hrow : rowAt PostingRow.postingId w.db.postings call.req.postingId = some row := found
    have hrec := hm.postings call.req.postingId
    rw [hrow, Option.map_some] at hrec
    have hentries : entries = entriesOf w.db.entries call.req.postingId :=
      ordered_unique ordered (ht.increasing.sublist List.filter_sublist)
    rw [post_replayed digest salt call.sup ((validateRequest_ok_iff _ _ _).mp valid) hrec, hentries]
    refine ⟨?_, ht, hm⟩
    unfold PostingRecord.response PostingRow.record
    rw [List.map_map]
    rfl
  | posted parsed rd fresh =>
    obtain ⟨valid, lacks, accounts, read, readOk⟩ := fresh
    have hhead := startHash_mirrors ht hm read (readOk trivial)
    have haccepts : Accepts s call.req parsed := by
      refine ⟨(validateRequest_ok_iff _ _ _).mp valid, (lookup_none_iff hm _).mpr lacks, ?_⟩
      rw [← checkRows_mirrors hm]
      exact accounts
    have hl := createEntries_mirrors digest salt hm call parsed
    have hnumbers := hashEntries_numbersTo digest salt call (maxSequence w.db.entries)
      (startHash rd) parsed
    have hb := callCommit_booked digest salt call i w parsed rd
    have hanchor : ¬ w.db.HasAnchor call.req.postingId := by
      intro hhas
      obtain ⟨a, ha, haid⟩ := hhas
      refine lacks ?_
      rw [← haid]
      exact ht.anchorKeys a ha
    have hu : Fresh call (callLoop digest salt call parsed (startHash rd)).prevHash
        (callCommit digest salt call i w parsed rd).tables :=
      ⟨rfl, rfl, if_neg hanchor⟩
    rw [post_accepted digest salt call.sup haccepts]
    simp only [callLoop, hnumbers.prevHash, hnumbers.entryIds] at hu ⊢
    rw [hhead, ← hl] at hu ⊢
    rw [hhead] at hb
    have hdb := tablesAfter_concat w.base w.log (callCommit digest salt call i w parsed rd)
    unfold World.db World.committed World.readLastHash
    rw [hdb]
    exact ⟨rfl, posted_append ht lacks valid hb hu, mirrors_append ht hm lacks valid hl hb hu⟩

end Step

/-! ## 3. Runs -/

/-- The tables hold accounts, those of the association list, and no postings. -/
structure Tables.HoldsOnly (t : Tables) (accounts : AList (fun _ : String => Account)) : Prop where
  keys : (t.accounts.map (·.accountId)).Nodup
  lookup : ∀ id, accounts.lookup id =
    (rowAt AccountRow.accountId t.accounts id).map AccountRow.record
  postings : t.postings = []
  entries : t.entries = []
  hashChain : t.hashChain = []

/-- The store in memory that holds the accounts. -/
def LedgerState.holding (accounts : AList (fun _ : String => Account)) : LedgerState :=
  { LedgerState.new with accounts := accounts }

/-- The first `n` calls, made to the store in memory. -/
def memoryCalls (calls : Nat → PoolCall) (n : Nat) : List Call :=
  (List.range n).map fun k => .post (calls k).req (calls k).sup

section Runs

variable {digest : ByteArray → String} {salt : String} {calls : Nat → PoolCall}
  {replica : Nat → Nat} {base : Tables} {inner : Nat → LedgerState} {w : World}
  {answers : List (Except PostError (PostingResponse × Bool))}
  {accounts : AList (fun _ : String => Account)}

theorem holdsOnly_posted (h : base.HoldsOnly accounts) : base.Posted where
  accountIds := h.keys
  postingIds := by rw [h.postings]; exact List.nodup_nil
  anchorIds := by rw [h.hashChain]; exact List.nodup_nil
  amounts e he := by rw [h.entries] at he; exact absurd he List.not_mem_nil
  increasing := by rw [h.entries]; exact List.Pairwise.nil
  directions e he := by rw [h.entries] at he; exact absurd he List.not_mem_nil
  entryKeys e he := by rw [h.entries] at he; exact absurd he List.not_mem_nil
  anchorKeys a ha := by rw [h.hashChain] at ha; exact absurd ha List.not_mem_nil

theorem holdsOnly_mirrors (h : base.HoldsOnly accounts) : Mirrors base (.holding accounts) where
  accounts := h.lookup
  postings id := by rw [h.postings]; rfl
  entries := by rw [h.entries]; rfl
  anchors id := by rw [h.hashChain]; rfl
  sequence := by rw [h.entries]; rfl
  head := rfl

/-- **The relation holds after every run, and the answers are the same**, one call after the
    other. -/
theorem sequential_simulates (hbase : base.HoldsOnly accounts)
    (h : Sequential digest salt calls True replica base inner answers w) :
    Runs.outputs (apply digest salt) (memoryCalls calls answers.length) (.holding accounts) =
      answers.map .posting ∧
    w.db.Posted ∧
    Mirrors w.db (runFrom digest salt (memoryCalls calls answers.length) (.holding accounts)) := by
  induction h with
  | start => exact ⟨rfl, holdsOnly_posted hbase, holdsOnly_mirrors hbase⟩
  | @post answers r v v' before ran ih =>
    obtain ⟨hsame, ht, hm⟩ := ih
    rw [Nat.zero_add] at ran
    obtain ⟨hr, ht', hm'⟩ := post_simulates ht hm (before.outcome rfl ran)
    have hcalls : memoryCalls calls (answers ++ [r]).length = memoryCalls calls answers.length ++
        [.post (calls answers.length).req (calls answers.length).sup] := by
      unfold memoryCalls
      rw [List.length_append, List.length_singleton, List.range_succ, List.map_append]
      rfl
    rw [hcalls, Runs.outputs_concat, hsame, runFrom, Runs.run_concat, List.map_append]
    refine ⟨?_, ht', hm'⟩
    rw [← hr]
    rfl

end Runs

/-- **The store with a pool refines the store in memory.** On tables that hold accounts and no
    postings, every run of calls that do not overlap and in which no statement fails gives the
    answers of the store in memory with the same accounts, clock and identifiers; afterwards every
    read agrees, and `hydrate` loads the in-memory ledger. -/
theorem pool_refines_memory (digest : ByteArray → String) (salt : String) (calls : Nat → PoolCall)
    (replica : Nat → Nat) (base : Tables) (inner : Nat → LedgerState)
    (accounts : AList (fun _ : String => Account)) (hbase : base.HoldsOnly accounts)
    (answers : List (Except PostError (PostingResponse × Bool))) (w : World)
    (h : Sequential digest salt calls True replica base inner answers w) :
    Runs.outputs (apply digest salt) (memoryCalls calls answers.length) (.holding accounts) =
      answers.map .posting ∧
    ReadsAgree digest salt w.db
      (runFrom digest salt (memoryCalls calls answers.length) (.holding accounts)) := by
  obtain ⟨hsame, ht, hm⟩ := sequential_simulates hbase h
  exact ⟨hsame, reads_agree ht hm⟩

/-- The accounts of the sample tables. -/
def sampleHeld : AList (fun _ : String => Account) :=
  indexed AccountRow.accountId AccountRow.record sampleTables.accounts

theorem sampleTables_holdsOnly : sampleTables.HoldsOnly sampleHeld where
  keys := by decide
  lookup := lookup_indexed _ (by decide)
  postings := rfl
  entries := rfl
  hashChain := rfl

/-- A posting, its replay and a refusal, with and without a pool. -/
theorem pool_refines_memory_sample :
    ((∃ resp, sampleReplayed.1 = .ok (resp, true)) ∧ ∃ e, sampleRefused.1 = .error e) ∧
    Runs.outputs (apply plainDigest sampleSalt) (memoryCalls sampleAgain 3) (.holding sampleHeld) =
      [.posting sampleFirst.1, .posting sampleReplayed.1, .posting sampleRefused.1] ∧
    ReadsAgree plainDigest sampleSalt sampleRefused.2.db
      (runFrom plainDigest sampleSalt (memoryCalls sampleAgain 3) (.holding sampleHeld)) :=
  ⟨sampleAgain_answers, pool_refines_memory plainDigest sampleSalt sampleAgain id sampleTables
    (fun _ => .new) sampleHeld sampleTables_holdsOnly _ _ sampleAgain_sequential⟩

end LedgerAccounting
