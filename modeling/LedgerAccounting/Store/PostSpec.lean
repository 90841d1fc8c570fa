/-
  File:      LedgerAccounting/Store/PostSpec.lean
  Subject:   What the parts of `Store::post` guarantee: the checks on the request, the per-asset
             totals, and the loop that creates the entries.

  * `validateRequest_ok_iff`, `checkAmount_ok_iff`, `checkAccounts_ok_iff`: the checks, read back.
  * `parsed_balanced`: an accepted request balances in the sense of Lib/DoubleEntry.lean.
  * `createEntries_spec`: the created entries are numbered, linked and sealed.
  * `post_cases`: a call of `post` errs, replays or records.
-/
import LedgerAccounting.Store.Post
import LedgerAccounting.HashChain
import LedgerAccounting.Lib.DoubleEntry

namespace LedgerAccounting

open Linked Runs

/-! ## 1. The checks on the request -/

/-- What the first half of `post` has established when it yields `parsed`. -/
structure ValidRequest (req : PostingRequest) (parsed : List ParsedEntry) : Prop where
  nonempty : req.entries ≠ []
  size : req.entries.length ≤ maxEntriesPerPosting
  amounts : ∀ e ∈ req.entries, checkAmount e = .ok ()
  parses : List.Forall₂ (fun e p => parseEntry e = .ok p) req.entries parsed
  sides : ∀ p ∈ (perAsset parsed).entries, checkSides p = .ok ()

theorem checkSize_ok_iff (req : PostingRequest) :
    checkSize req = .ok () ↔ req.entries ≠ [] ∧ req.entries.length ≤ maxEntriesPerPosting := by
  unfold checkSize
  by_cases h : req.entries = []
  · simp [h]
  · by_cases hlen : req.entries.length > maxEntriesPerPosting
    · simp [h, hlen]
    · simp [h, hlen, Nat.le_of_not_gt hlen]

/-- ... whatever the order in which the totals are visited. -/
theorem validateRequest_ok_iff (sup : Supply) (req : PostingRequest) (parsed : List ParsedEntry) :
    validateRequest sup req = .ok parsed ↔ ValidRequest req parsed := by
  have hvisit : ∀ parsed, (sup.visit (perAsset parsed).entries).forM checkSides = .ok () ↔
      ∀ p ∈ (perAsset parsed).entries, checkSides p = .ok () := by
    intro parsed
    rw [forM_ok_iff]
    exact forall_congr' fun p => imp_congr_left (sup.visit_perm _).mem_iff
  unfold validateRequest
  simp only [bind_ok_iff]
  constructor
  · rintro ⟨_, hsize, _, hamounts, parsed', hparses, _, hsides, heq⟩
    cases heq
    obtain ⟨hne, hlen⟩ := (checkSize_ok_iff req).mp hsize
    exact ⟨hne, hlen, forM_ok_iff.mp hamounts, mapM_ok_iff.mp hparses, (hvisit _).mp hsides⟩
  · intro h
    exact ⟨(), (checkSize_ok_iff req).mpr ⟨h.nonempty, h.size⟩, (), forM_ok_iff.mpr h.amounts,
      parsed, mapM_ok_iff.mpr h.parses, (), (hvisit parsed).mpr h.sides, rfl⟩

/-- A request is parsed in one way. -/
theorem ValidRequest.unique {req : PostingRequest} {parsed parsed' : List ParsedEntry}
    (h : ValidRequest req parsed) (h' : ValidRequest req parsed') : parsed' = parsed := by
  have hparse := mapM_ok_iff.mpr h.parses
  rw [mapM_ok_iff.mpr h'.parses] at hparse
  exact Except.ok.inj hparse

theorem checkAmount_ok_iff (e : EntryInput) :
    checkAmount e = .ok () ↔
      ∃ spec, findAsset e.asset = some spec ∧ 0 < e.amount ∧ e.amount ≤ spec.maxAmount ∧
        e.amount ≤ maxAmount := by
  have hasset := validateAmount_ok_iff e.asset e.amount
  unfold checkAmount
  by_cases h0 : e.amount = 0
  · simp [h0]
  · cases hv : validateAmount e.asset e.amount with
    | error msg =>
      have hrefused : ¬ ∃ spec, findAsset e.asset = some spec ∧ 0 < e.amount ∧
          e.amount ≤ spec.maxAmount := by
        rw [← hasset, hv]
        simp
      simp only [h0, if_false, reduceCtorEq, false_iff]
      intro h
      obtain ⟨spec, hspec, hpos, hle, _⟩ := h
      exact hrefused ⟨spec, hspec, hpos, hle⟩
    | ok u =>
      obtain ⟨spec, hspec, hpos, hle⟩ := hasset.mp hv
      by_cases hmax : e.amount > maxAmount
      · simp [h0, hmax]
      · simp [h0, hmax, hspec, hpos, hle]
        omega

theorem parseEntry_ok_iff (e : EntryInput) (p : ParsedEntry) :
    parseEntry e = .ok p ↔
      e.direction = p.dir.text ∧ p.accountId = e.accountId ∧ p.amount = e.amount ∧
        p.asset = e.asset := by
  unfold parseEntry
  constructor
  · intro h
    split at h
    · rename_i d hd
      cases h
      exact ⟨parseDirection_some hd, rfl, rfl, rfl⟩
    · cases h
  · rintro ⟨hd, ha, hn, hs⟩
    rw [hd, parseDirection_text]
    cases p
    simp_all

/-- Every parsed entry of a valid request has an amount within the bounds. -/
theorem ValidRequest.amount {req : PostingRequest} {parsed : List ParsedEntry}
    (h : ValidRequest req parsed) : ∀ p ∈ parsed, 0 < p.amount ∧ p.amount ≤ maxAmount := by
  intro p hp
  obtain ⟨e, he, hparse⟩ := forall₂_mem_right h.parses hp
  obtain ⟨_, _, hn, _⟩ := (parseEntry_ok_iff e p).mp hparse
  obtain ⟨_, _, hpos, _, hmax⟩ := (checkAmount_ok_iff e).mp (h.amounts e he)
  rw [hn]
  exact ⟨hpos, hmax⟩

/-! ## 2. The per-asset totals -/

/-- The value of a parsed entry: debits count positive, credits negative. -/
def ParsedEntry.signed (p : ParsedEntry) : Int :=
  match p.dir with
  | .debit => p.amount
  | .credit => -p.amount

def ParsedEntry.line (p : ParsedEntry) : DoubleEntry.Line String String Int :=
  ⟨p.accountId, p.asset, p.signed⟩

theorem perAsset_concat (parsed : List ParsedEntry) (p : ParsedEntry) :
    perAsset (parsed ++ [p]) = addToAsset (perAsset parsed) p := by
  unfold perAsset
  rw [List.foldl_append]
  rfl

/-- The totals the loop has stored for an asset are those of the entries of that asset. -/
theorem perAsset_lookup (parsed : List ParsedEntry) (a : String) :
    ((perAsset parsed).lookup a).getD (0, 0) =
      (parsed.filter fun p => decide (p.asset = a)).foldl addSide (0, 0) := by
  induction parsed using List.reverseRecOn with
  | nil => rfl
  | append_singleton parsed p ih =>
    rw [perAsset_concat, addToAsset, List.filter_append, List.foldl_append]
    by_cases h : p.asset = a
    · subst h
      rw [AList.lookup_insert, ih]
      simp
    · rw [AList.lookup_insert_ne (Ne.symm h), ih]
      simp [h]

theorem addSide_diff (l : List ParsedEntry) (s : Int × Int) :
    (l.foldl addSide s).1 - (l.foldl addSide s).2 = s.1 - s.2 + (l.map (·.signed)).sum := by
  induction l generalizing s with
  | nil => simp
  | cons p l ih =>
    rw [List.foldl_cons, ih, List.map_cons, List.sum_cons]
    unfold addSide ParsedEntry.signed
    cases p.dir <;> simp <;> ring

/-- The side checks pass exactly when the two sides of every asset agree. -/
theorem checkSides_ok_iff (parsed : List ParsedEntry) :
    (∀ p ∈ (perAsset parsed).entries, checkSides p = .ok ()) ↔
      ∀ a, (((perAsset parsed).lookup a).getD (0, 0)).1 =
        (((perAsset parsed).lookup a).getD (0, 0)).2 := by
  have hone : ∀ p, checkSides p = .ok () ↔ p.2.1 = p.2.2 := by
    intro p
    unfold checkSides
    by_cases h : p.2.1 = p.2.2 <;> simp [h]
  simp only [hone]
  constructor
  · intro h a
    cases hl : (perAsset parsed).lookup a with
    | none => rfl
    | some sides => exact h ⟨a, sides⟩ (AList.mem_lookup_iff.mp hl)
  · intro h p hp
    have hl : (perAsset parsed).lookup p.1 = some p.2 := AList.mem_lookup_iff.mpr hp
    have heq := h p.1
    rw [hl] at heq
    exact heq

/-- **An accepted request balances in every asset.** -/
theorem parsed_balanced {req : PostingRequest} {parsed : List ParsedEntry}
    (h : ValidRequest req parsed) : DoubleEntry.Balanced (parsed.map (·.line)) := by
  intro a
  have hvalue : DoubleEntry.value (fun l => decide (l.asset = a)) (parsed.map (·.line)) =
      ((parsed.filter fun p => decide (p.asset = a)).map (·.signed)).sum := by
    unfold DoubleEntry.value
    rw [List.filter_map, List.map_map]
    rfl
  have hsides : ((perAsset parsed).lookup a).getD (0, 0) =
      (parsed.filter fun p => decide (p.asset = a)).foldl addSide (0, 0) := perAsset_lookup parsed a
  have heq := (checkSides_ok_iff parsed).mp h.sides a
  have hdiff := addSide_diff (parsed.filter fun p => decide (p.asset = a)) (0, 0)
  rw [hvalue]
  rw [← hsides, heq] at hdiff
  simpa using hdiff.symm

/-! ## 3. The checks on the accounts -/

theorem checkActive_ok_iff (state : LedgerState) (p : ParsedEntry) :
    checkActive state p = .ok () ↔
      ∃ acc, state.accounts.lookup p.accountId = some acc ∧ acc.status = "ACTIVE" := by
  unfold checkActive
  cases h : state.accounts.lookup p.accountId with
  | none => simp
  | some acc => by_cases hs : acc.status = "ACTIVE" <;> simp [hs]

theorem checkChart_ok_iff (typeName : String) (dir : Direction) :
    checkChart typeName dir = .ok () ↔
      ∃ t, findType typeName = some t ∧ directionAllowed t dir = true := by
  unfold checkChart
  cases h : findType typeName with
  | none => simp
  | some t => by_cases hd : directionAllowed t dir = true <;> simp [hd]

theorem checkDirection_ok_iff (state : LedgerState) (p : ParsedEntry) :
    checkDirection state p = .ok () ↔
      ∃ acc t, state.accounts.lookup p.accountId = some acc ∧ findType acc.typeName = some t ∧
        directionAllowed t p.dir = true := by
  unfold checkDirection
  cases h : state.accounts.lookup p.accountId with
  | none => simp
  | some acc => simp [checkChart_ok_iff]

/-- **The account checks pass exactly when every entry is booked on an existing, active account
    whose chart type allows its direction.** -/
theorem checkAccounts_ok_iff (state : LedgerState) (parsed : List ParsedEntry) :
    checkAccounts state parsed = .ok () ↔
      ∀ p ∈ parsed, ∃ acc t, state.accounts.lookup p.accountId = some acc ∧
        acc.status = "ACTIVE" ∧ findType acc.typeName = some t ∧
        directionAllowed t p.dir = true := by
  have hboth : checkAccounts state parsed = .ok () ↔
      parsed.forM (checkActive state) = .ok () ∧ parsed.forM (checkDirection state) = .ok () := by
    unfold checkAccounts
    rw [bind_ok_iff]
    exact ⟨fun ⟨_, h1, h2⟩ => ⟨h1, h2⟩, fun ⟨h1, h2⟩ => ⟨(), h1, h2⟩⟩
  rw [hboth, forM_ok_iff, forM_ok_iff]
  constructor
  · rintro ⟨h1, h2⟩ p hp
    obtain ⟨acc, hacc, hactive⟩ := (checkActive_ok_iff state p).mp (h1 p hp)
    obtain ⟨acc', t, hacc', ht, hdir⟩ := (checkDirection_ok_iff state p).mp (h2 p hp)
    rw [hacc] at hacc'
    cases hacc'
    exact ⟨acc, t, hacc, hactive, ht, hdir⟩
  · intro h
    refine ⟨fun p hp => ?_, fun p hp => ?_⟩
    · obtain ⟨acc, t, hacc, hactive, _, _⟩ := h p hp
      exact (checkActive_ok_iff state p).mpr ⟨acc, hacc, hactive⟩
    · obtain ⟨acc, t, hacc, _, ht, hdir⟩ := h p hp
      exact (checkDirection_ok_iff state p).mpr ⟨acc, t, hacc, ht, hdir⟩

/-! ## 4. The loop that creates the entries -/

section Creating

variable {digest : ByteArray → String} {salt : String}

theorem makeEntry_canonical (now postingId prevHash entryId : String) (seq : Nat)
    (p : ParsedEntry) : (makeEntry digest salt now postingId prevHash entryId seq p).canonical =
      some (canonicalBytes prevHash entryId p.accountId p.dir p.amount p.asset now) := by
  simp [EntryRecord.canonical, makeEntry]

theorem makeEntry_sealed (now postingId prevHash entryId : String) (seq : Nat) (p : ParsedEntry) :
    Sealed digest salt (makeEntry digest salt now postingId prevHash entryId seq p) :=
  ⟨_, makeEntry_canonical now postingId prevHash entryId seq p, rfl⟩

/-- `e` is a record made from `p` in the posting `postingId` at `now`. -/
def MadeFrom (digest : ByteArray → String) (salt now postingId : String) (p : ParsedEntry)
    (e : EntryRecord) : Prop :=
  ∃ prevHash entryId seq, e = makeEntry digest salt now postingId prevHash entryId seq p

theorem made_sealed {now postingId : String} {parsed : List ParsedEntry} {l : List EntryRecord}
    (h : List.Forall₂ (MadeFrom digest salt now postingId) parsed l) :
    ∀ e ∈ l, Sealed digest salt e := by
  intro e he
  obtain ⟨p, _, prevHash, entryId, seq, rfl⟩ := forall₂_mem_right h he
  exact makeEntry_sealed _ _ _ _ _ _

/-- What the loop over `entries_parsed` has done after `parsed`, started at the counter `start` and
    the chain head `head`. -/
structure LoopSpec (digest : ByteArray → String) (salt now postingId : String) (start : Nat)
    (head : String) (sup : Supply) (parsed : List ParsedEntry) (l : Loop) : Prop where
  sequence : l.sequence = start + parsed.length
  numbers : l.createdEntries.map (·.sequenceNumber) = List.range' (start + 1) parsed.length
  entryIds : l.entryIds = l.createdEntries.map (·.entryId)
  fresh : l.entryIds = (List.range parsed.length).map sup.uuid
  linked : EntriesLinked head l.createdEntries
  prevHash : l.prevHash = entriesHead head l.createdEntries
  made : List.Forall₂ (MadeFrom digest salt now postingId) parsed l.createdEntries

/-- **The loop numbers, links and seals the entries it creates.** The induction appends one parsed
    entry at the end, as the loop does. -/
theorem loop_spec (sup : Supply) (now postingId : String) (start : Nat) (head : String)
    (parsed : List ParsedEntry) :
    LoopSpec digest salt now postingId start head sup parsed
      (parsed.foldl (Loop.push digest salt sup now postingId) ⟨start, head, [], []⟩) := by
  induction parsed using List.reverseRecOn with
  | nil => exact ⟨rfl, rfl, rfl, rfl, trivial, rfl, .nil⟩
  | append_singleton parsed p ih =>
    rw [List.foldl_append]
    generalize parsed.foldl (Loop.push digest salt sup now postingId) ⟨start, head, [], []⟩ = l
      at ih
    have hlen : l.entryIds.length = parsed.length := by rw [ih.fresh]; simp
    refine ⟨?_, ?_, ?_, ?_, ?_, ?_, ?_⟩
    · simp only [List.foldl_cons, List.foldl_nil, Loop.push, ih.sequence, List.length_append,
        List.length_singleton]
      omega
    · simp only [List.foldl_cons, List.foldl_nil, Loop.push, List.map_append, ih.numbers,
        List.length_append, List.length_singleton, List.range'_concat, makeEntry, ih.sequence,
        List.map_cons, List.map_nil]
      congr 2
      omega
    · simp only [List.foldl_cons, List.foldl_nil, Loop.push, List.map_append, ← ih.entryIds]
      rfl
    · simp only [List.foldl_cons, List.foldl_nil, Loop.push, List.length_append,
        List.length_singleton, List.range_succ, List.map_append, ← ih.fresh, hlen]
      rfl
    · exact linkedFrom_concat.mpr ⟨ih.linked, ih.prevHash⟩
    · simp only [List.foldl_cons, List.foldl_nil, Loop.push, headFrom_concat]
    · exact List.rel_append ih.made (.cons ⟨_, _, _, rfl⟩ .nil)

theorem createEntries_spec (digest : ByteArray → String) (salt : String) (sup : Supply)
    (state : LedgerState) (postingId : String) (parsed : List ParsedEntry) :
    LoopSpec digest salt (sup.nowIso 0) postingId state.sequence state.globalChainHead sup parsed
      (createEntries digest salt sup state postingId parsed) :=
  loop_spec sup _ _ _ _ parsed

end Creating

/-! ## 5. The three ways a call of `post` ends -/

/-- The request passes every check of `post` in `state` and its posting id is not recorded. -/
structure Accepts (state : LedgerState) (req : PostingRequest) (parsed : List ParsedEntry) :
    Prop where
  valid : ValidRequest req parsed
  fresh : state.postings.lookup req.postingId = none
  accounts : checkAccounts state parsed = .ok ()

section Post

variable (digest : ByteArray → String) (salt : String) (sup : Supply)

theorem post_accepted {state : LedgerState} {req : PostingRequest} {parsed : List ParsedEntry}
    (h : Accepts state req parsed) :
    post digest salt sup req state =
      (let l := createEntries digest salt sup state req.postingId parsed
       (.ok (⟨req.postingId, "POSTED", l.entryIds, l.prevHash⟩, false),
         state.record sup req l)) := by
  unfold post postViaMemory
  simp only [(validateRequest_ok_iff sup req parsed).mpr h.valid, h.fresh, h.accounts]

theorem post_replayed {state : LedgerState} {req : PostingRequest} {parsed : List ParsedEntry}
    {rec : PostingRecord} (hv : ValidRequest req parsed)
    (hr : state.postings.lookup req.postingId = some rec) :
    post digest salt sup req state = (.ok (rec.response, true), state) := by
  unfold post postViaMemory
  simp only [(validateRequest_ok_iff sup req parsed).mpr hv, hr]

/-- **A call of `post` errs and keeps the state, replays and keeps the state, or records.** -/
theorem post_cases (req : PostingRequest) (state : LedgerState) :
    (∃ e, post digest salt sup req state = (.error e, state)) ∨
    (∃ parsed rec, ValidRequest req parsed ∧
      state.postings.lookup req.postingId = some rec ∧
      post digest salt sup req state = (.ok (rec.response, true), state)) ∨
    ∃ parsed, Accepts state req parsed := by
  cases hv : validateRequest sup req with
  | error e => exact Or.inl ⟨e, by simp only [post, hv]⟩
  | ok parsed =>
    have hvalid := (validateRequest_ok_iff sup req parsed).mp hv
    cases hr : state.postings.lookup req.postingId with
    | some rec => exact Or.inr (Or.inl ⟨parsed, rec, hvalid, rfl, post_replayed _ _ _ hvalid hr⟩)
    | none =>
      cases ha : checkAccounts state parsed with
      | error e => exact Or.inl ⟨e, by simp only [post, hv, postViaMemory, hr, ha]⟩
      | ok u => exact Or.inr (Or.inr ⟨parsed, hvalid, hr, ha⟩)

/-- A call that answers afresh has been accepted. -/
theorem accepts_of_fresh {req : PostingRequest} {state : LedgerState} {r : PostingResponse}
    (h : (post digest salt sup req state).1 = .ok (r, false)) :
    ∃ parsed, Accepts state req parsed := by
  rcases post_cases digest salt sup req state with ⟨e, he⟩ | ⟨parsed, rec, _, _, hrec⟩ | h'
  · rw [he] at h; cases h
  · rw [hrec] at h; cases h
  · exact h'

end Post

end LedgerAccounting
