/-
  File:      LedgerAccounting/Run.lean
  Subject:   Runs of the in-memory store: any finite sequence of `create_account`, `post` and
             `write_snapshots` calls, with arbitrary arguments, clock readings and identifiers.

  Every operation holds the lock of the state for as long as it reads or writes it, so concurrent
  calls take effect one after another and a run is a list of calls.

  * `Transition`: what a call can do to the state; `apply_transition`: it does nothing else.
  * `reachable_invariant`: what every transition keeps holds in every reachable state.
-/
import LedgerAccounting.Store.Accounts
import LedgerAccounting.Store.PostSpec

namespace LedgerAccounting

open Runs

/-! ## 1. Calls -/

inductive Call where
  | createAccount (req : CreateAccountRequest) (sup : Supply)
  | post (req : PostingRequest) (sup : Supply)
  | writeSnapshots (sup : Supply)

inductive Answer where
  | account (r : Except String Account)
  | posting (r : Except PostError (PostingResponse × Bool))
  | snapshots (r : List BalanceSnapshot)

section Apply

variable (digest : ByteArray → String) (salt : String)

/-- One call of the store: its answer and the state after it. -/
def apply : Call → LedgerState → Answer × LedgerState
  | .createAccount req sup, state =>
    let (r, state') := createAccount sup req state
    (.account r, state')
  | .post req sup, state =>
    let (r, state') := post digest salt sup req state
    (.posting r, state')
  | .writeSnapshots sup, state =>
    let (r, state') := writeSnapshots sup state
    (.snapshots r, state')

/-- The state after the calls, from `state`. -/
abbrev runFrom (calls : List Call) (state : LedgerState) : LedgerState :=
  run (apply digest salt) calls state

/-- The state after the calls, from the empty store. -/
abbrev runNew (calls : List Call) : LedgerState := runFrom digest salt calls .new

/-- A state some run from the empty store ends in. -/
def Reachable (state : LedgerState) : Prop := ∃ calls, runNew digest salt calls = state

end Apply

/-! ## 2. What one call can do -/

/-- **What a call of the store can do to the state**: nothing, add an admitted account under a new
    key, record an accepted posting under a new key, or replace the snapshots. -/
inductive Transition (digest : ByteArray → String) (salt : String) (state : LedgerState) :
    LedgerState → Prop where
  | keep : Transition digest salt state state
  | account (req : CreateAccountRequest) (r : String × AssetClass) (acc : Account)
      (valid : validate req = .ok r) (typeName : acc.typeName = r.1)
      (assetClass : acc.assetClass = req.assetClass) (active : acc.status = "ACTIVE")
      (fresh : state.accounts.lookup acc.accountId = none) :
      Transition digest salt state
        { state with accounts := state.accounts.insert acc.accountId acc }
  | posting (sup : Supply) (req : PostingRequest) (parsed : List ParsedEntry)
      (accepted : Accepts state req parsed) :
      Transition digest salt state
        (state.record sup req (createEntries digest salt sup state req.postingId parsed))
  | snapshots (snaps : List BalanceSnapshot) :
      Transition digest salt state { state with snapshots := snaps }

section Transitions

variable {digest : ByteArray → String} {salt : String}

theorem createAccount_transition (sup : Supply) (req : CreateAccountRequest)
    (state : LedgerState) : Transition digest salt state (createAccount sup req state).2 := by
  rcases createAccount_cases sup req state with ⟨e, he⟩ | ⟨r, acc, hv, rfl, hfresh, hc⟩
  · rw [he]
    exact .keep
  · rw [hc]
    exact .account req r _ hv rfl rfl rfl hfresh

theorem post_transition (sup : Supply) (req : PostingRequest) (state : LedgerState) :
    Transition digest salt state (post digest salt sup req state).2 := by
  rcases post_cases digest salt sup req state with
    ⟨e, he⟩ | ⟨parsed, rec, _, _, hrec⟩ | ⟨parsed, ha⟩
  · rw [he]
    exact .keep
  · rw [hrec]
    exact .keep
  · rw [post_accepted digest salt sup ha]
    exact .posting sup req parsed ha

theorem apply_transition (c : Call) (state : LedgerState) :
    Transition digest salt state (apply digest salt c state).2 := by
  cases c with
  | createAccount req sup => exact createAccount_transition sup req state
  | post req sup => exact post_transition sup req state
  | writeSnapshots sup => exact .snapshots _

/-! ## 3. Invariants of runs -/

theorem Reachable.runFrom {state : LedgerState} (h : Reachable digest salt state)
    (calls : List Call) : Reachable digest salt (runFrom digest salt calls state) := by
  obtain ⟨before, rfl⟩ := h
  exact ⟨before ++ calls, run_append _ before calls _⟩

/-- **What every transition keeps holds in every reachable state.** -/
theorem reachable_invariant {I : LedgerState → Prop} (h0 : I .new)
    (hstep : ∀ s s', I s → Transition digest salt s s' → I s') {state : LedgerState}
    (h : Reachable digest salt state) : I state := by
  obtain ⟨calls, rfl⟩ := h
  exact run_invariant (fun c s hs => hstep s _ hs (apply_transition c s)) calls h0

/-- What every transition keeps from `state` on holds after every further run. -/
theorem run_keeps {I : LedgerState → Prop}
    (hstep : ∀ s s', I s → Transition digest salt s s' → I s') (calls : List Call)
    {state : LedgerState} (h : I state) : I (runFrom digest salt calls state) :=
  run_invariant (fun c s hs => hstep s _ hs (apply_transition c s)) calls h

end Transitions

/-! ## 4. What a transition never changes -/

section Append

variable {digest : ByteArray → String} {salt : String} {state state' : LedgerState}

@[simp] theorem record_accounts (sup : Supply) (req : PostingRequest) (l : Loop) :
    (state.record sup req l).accounts = state.accounts := rfl

@[simp] theorem record_entries (sup : Supply) (req : PostingRequest) (l : Loop) :
    (state.record sup req l).entries = state.entries ++ l.createdEntries := rfl

@[simp] theorem record_globalChainHead (sup : Supply) (req : PostingRequest) (l : Loop) :
    (state.record sup req l).globalChainHead = l.prevHash := rfl

theorem record_lookup_self (state : LedgerState) (sup : Supply) (req : PostingRequest) (l : Loop) :
    (state.record sup req l).postings.lookup req.postingId =
      some ⟨req.postingId, req.refTxId, req.memo, "POSTED", l.prevHash, l.createdEntries,
        sup.nowIso 0⟩ :=
  AList.lookup_insert _

theorem record_lookup_ne (sup : Supply) (req : PostingRequest) (l : Loop) {id : String}
    (h : id ≠ req.postingId) :
    (state.record sup req l).postings.lookup id = state.postings.lookup id :=
  AList.lookup_insert_ne h

/-- No transition takes an account away or changes it. -/
theorem transition_account (h : Transition digest salt state state') {id : String} {acc : Account}
    (hl : state.accounts.lookup id = some acc) : state'.accounts.lookup id = some acc := by
  cases h with
  | keep => exact hl
  | account req r acc' _ _ _ _ fresh =>
    have hne : id ≠ acc'.accountId := by
      rintro rfl
      rw [fresh] at hl
      cases hl
    exact (AList.lookup_insert_ne hne).trans hl
  | posting => exact hl
  | snapshots => exact hl

/-- No transition takes a recorded posting away or changes it. -/
theorem transition_posting (h : Transition digest salt state state') {id : String}
    {rec : PostingRecord} (hl : state.postings.lookup id = some rec) :
    state'.postings.lookup id = some rec := by
  cases h with
  | keep => exact hl
  | account => exact hl
  | posting sup req parsed accepted =>
    have hne : id ≠ req.postingId := by
      rintro rfl
      rw [accepted.fresh] at hl
      cases hl
    exact (record_lookup_ne sup req _ hne).trans hl
  | snapshots => exact hl

/-- The entries after a transition start with the entries before it. -/
theorem transition_entries (h : Transition digest salt state state') :
    state.entries <+: state'.entries := by
  cases h with
  | keep => exact List.prefix_rfl
  | account => exact List.prefix_rfl
  | posting => exact List.prefix_append _ _
  | snapshots => exact List.prefix_rfl

/-- No call takes an account away. -/
theorem runFrom_account (calls : List Call) {id : String} {acc : Account}
    (h : getAccount state id = some acc) :
    getAccount (runFrom digest salt calls state) id = some acc :=
  run_keeps (I := fun s => getAccount s id = some acc)
    (fun _ _ hs ht => transition_account ht hs) calls h

/-- No call takes a recorded posting away. -/
theorem runFrom_posting (calls : List Call) {id : String} {rec : PostingRecord}
    (h : getPosting state id = some rec) :
    getPosting (runFrom digest salt calls state) id = some rec :=
  run_keeps (I := fun s => getPosting s id = some rec)
    (fun _ _ hs ht => transition_posting ht hs) calls h

/-- The entries after a run start with the entries before it. -/
theorem runFrom_entries (calls : List Call) (state : LedgerState) :
    state.entries <+: (runFrom digest salt calls state).entries :=
  run_keeps (I := fun s => state.entries <+: s.entries)
    (fun _ _ hs ht => hs.trans (transition_entries ht)) calls List.prefix_rfl

end Append

/-! ## 5. A run

Two accounts and one posting between them, as in the service's own tests, with the SHA-256 values
of the two byte strings that are hashed. -/

/-- The clock stands still and the identifiers are UUIDs of version 7. -/
def sampleSupply : Supply where
  clock _ := 1700000000
  uuid k := ["018bcfe5-6800-7000-8000-000000000001", "018bcfe5-6800-7000-8000-000000000002",
    "018bcfe5-6800-7000-8000-000000000003"].getD k ""
  visit l := l
  clock_lt _ := by decide
  visit_perm := .refl

def sampleSalt : String := "s1"

def sampleRequest : PostingRequest where
  postingId := "bal1"
  entries := [⟨"uc", "DEBIT", 100, "USD"⟩, ⟨"op", "CREDIT", 100, "USD"⟩]
  memo := some "test"
  refTxId := some "tx1"

def sampleHash1 : String := "05754a5f059e6769810f67fdd742e27488bd576c0aef7607002b315811fe08a7"

def sampleHash2 : String := "316fb10b0cdecce3437839f85351c7ce138b25a01a0d3d602e21bf1e9b3adb94"

/-- SHA-256 in hexadecimal on the two byte strings of the run, which are told apart by their size,
    and the digest of the empty string elsewhere. -/
def sampleDigest (b : ByteArray) : String :=
  if b.size = 195 then sampleHash1
  else if b.size = 196 then sampleHash2
  else "e3b0c44298fc1c149afbf4c8996fb92427ae41e4649b934ca495991b7852b855"

def sampleAccounts : List Call :=
  [ .createAccount ⟨some "uc", "user_custodial", "BOTH", "user_custodial-uc", none⟩ sampleSupply,
    .createAccount ⟨some "op", "operational_fiat", "FIAT", "operational_fiat-op", none⟩
      sampleSupply ]

/-- The store with the two accounts. -/
def sampleOpen : LedgerState := runNew sampleDigest sampleSalt sampleAccounts

def sampleCalls : List Call := sampleAccounts ++ [.post sampleRequest sampleSupply]

/-- The store with the two accounts and the posting. -/
def sampleState : LedgerState := runNew sampleDigest sampleSalt sampleCalls

def sampleResponse : PostingResponse where
  postingId := "bal1"
  status := "POSTED"
  entryIds := ["018bcfe5-6800-7000-8000-000000000001", "018bcfe5-6800-7000-8000-000000000002"]
  hashHead := sampleHash2

theorem sampleState_reachable : Reachable sampleDigest sampleSalt sampleState := ⟨_, rfl⟩

theorem sample_post :
    (post sampleDigest sampleSalt sampleSupply sampleRequest sampleOpen).1 =
      .ok (sampleResponse, false) := by
  decide +kernel

theorem sample_sizes :
    (hashInputs sampleSalt sampleState.entries).map ByteArray.size = [195, 196] := by
  decide +kernel

/-- SHA-256 has no collision on the two byte strings of the run. -/
theorem sampleDigest_sound :
    DigestSound sampleDigest (hashInputs sampleSalt sampleState.entries) := by
  obtain ⟨b, l, hl, hb, hrest⟩ := List.map_eq_cons_iff.mp sample_sizes
  obtain ⟨b', l', hl', hb', hnil⟩ := List.map_eq_cons_iff.mp hrest
  rw [List.map_eq_nil_iff] at hnil
  subst hnil
  have h1 : sampleDigest b = sampleHash1 := by simp [sampleDigest, hb]
  have h2 : sampleDigest b' = sampleHash2 := by simp [sampleDigest, hb']
  have hne : sampleHash1 ≠ sampleHash2 := by decide
  rw [hl, hl']
  constructor
  · unfold CollisionFree
    simp [h1, h2, hne, hne.symm]
  · simp only [List.forall_mem_cons, h1, h2]
    exact ⟨by decide, by decide, by simp⟩
  · simp only [List.forall_mem_cons, h1, h2]
    exact ⟨by decide, by decide, by simp⟩

/-- A digest without any collision, which is never the genesis mark: the bytes themselves. -/
def plainDigest (b : ByteArray) : String := String.ofList ('#' :: b.data.toList.map Char.ofUInt8)

theorem plainDigest_injective : Function.Injective plainDigest := by
  intro b b' h
  have hl := List.cons_injective (String.ofList_injective h)
  have hinj : Function.Injective Char.ofUInt8 := by
    intro x y hxy
    have hval := congrArg Char.val hxy
    simpa [Char.ofUInt8, UInt8.toUInt32_inj] using hval
  exact ByteArray.ext (Array.toList_inj.mp (List.map_injective_iff.mpr hinj hl))

theorem plainDigest_ne_genesis (b : ByteArray) : plainDigest b ≠ genesisHash := by
  intro h
  have hl := congrArg String.toList h
  simp [plainDigest, genesisHash] at hl

end LedgerAccounting
