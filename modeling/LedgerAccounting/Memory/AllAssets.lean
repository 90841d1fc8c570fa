/-
  File:      LedgerAccounting/Memory/AllAssets.lean
  Subject:   The balance over all assets, read directly and via a snapshot.

  A snapshot holds one asset, while the empty asset text asks for all of them: the read starts
  from the last snapshot of the account, in whatever asset that one is, and adds the later entries
  of every asset. What the account had booked in the other assets by then is left out.

  * `balance_all_assets`: the balance over all assets is the sum over the registered ones.
  * `all_assets_via_snapshot_iff`: when the read via the snapshot agrees with it.
-/
import LedgerAccounting.Memory.SnapshotDelta

namespace LedgerAccounting

open Runs

/-! ## 1. The balance over all assets -/

/-- The sum of the balances of the account over the registered assets. -/
def balanceOverAssets (state : LedgerState) (accountId : String) : Option Int :=
  (assetRegistry.mapM fun spec => balance state accountId spec.code).map List.sum

section Direct

variable {digest : ByteArray → String} {salt : String} {state : LedgerState}

/-- The balance over all assets is the sum over any list of different names that has every booked
    one. -/
theorem computeBalance_over (state : LedgerState) (accountId : String) (codes : List String)
    (hnodup : codes.Nodup) (hnames : ∀ code ∈ codes, code.isEmpty = false)
    (hbooked : ∀ e ∈ state.entries, e.asset ∈ codes) :
    computeBalance state accountId "" =
      (codes.map fun code => computeBalance state accountId code).sum := by
  have hsum := DoubleEntry.sum_value_fiber (·.asset) codes.toFinset
    (fun l => decide (l.account = accountId)) (state.entries.map (·.line)) fun l hl _ => by
      obtain ⟨e, he, rfl⟩ := List.mem_map.mp hl
      exact List.mem_toFinset.mpr (hbooked e he)
  rw [List.sum_toFinset _ hnodup] at hsum
  have hall : computeBalance state accountId "" =
      DoubleEntry.value (fun l => decide (l.account = accountId)) (state.entries.map (·.line)) := by
    rw [computeBalance_eq]
    exact DoubleEntry.value_congr fun _ _ => Bool.true_and _
  rw [hall, ← hsum]
  refine congrArg List.sum (List.map_congr_left fun code hcode => ?_)
  rw [computeBalance_eq]
  refine DoubleEntry.value_congr fun l _ => ?_
  rw [selects, hnames code hcode, Bool.false_or, Bool.and_comm]
  rfl

/-- **The computed balance over all assets is the sum over the registered ones**, since nothing
    else is booked. -/
theorem computeBalance_all (hs : Reachable digest salt state) (accountId : String) :
    computeBalance state accountId "" =
      (assetRegistry.map fun spec => computeBalance state accountId spec.code).sum := by
  have hover := computeBalance_over state accountId (assetRegistry.map (·.code))
    (by decide) (by decide) fun e he => by
      obtain ⟨spec, hspec, _⟩ := (reachable_checked hs e he).asset
      exact findAsset_registered hspec
  rw [hover, List.map_map]
  rfl

theorem balance_all_assets (hs : Reachable digest salt state) (accountId : String) :
    balance state accountId "" = balanceOverAssets state accountId := by
  unfold balanceOverAssets balance
  by_cases h : (state.accounts.lookup accountId).isSome
  · simp only [h, if_true, computeBalance_all hs]
    rfl
  · simp only [h]
    rfl

end Direct

/-! ## 2. Via the last snapshot of the account -/

/-- The last snapshot of the account in the list the state keeps. -/
def lastSnapshotOf (state : LedgerState) (accountId : String) : Option BalanceSnapshot :=
  (state.snapshots.filter fun s => s.accountId == accountId).getLast?

/-- What the last snapshot of the account leaves out, the entries of the account in other assets
    up to the number of the snapshot, comes to nothing. -/
def OthersSettled (state : LedgerState) (accountId : String) : Prop :=
  ∀ snap, lastSnapshotOf state accountId = some snap →
    ((state.entries.filter fun e => e.accountId == accountId && e.asset != snap.asset &&
      decide (e.sequenceNumber ≤ snap.lastSequence)).map (·.signed)).sum = 0

theorem latestSnapshot_all (state : LedgerState) (accountId : String) :
    latestSnapshot state accountId "" = lastSnapshotOf state accountId := by
  unfold latestSnapshot lastSnapshotOf
  rw [← List.head?_reverse]
  cases (state.snapshots.filter fun s => s.accountId == accountId).reverse with
  | nil => rfl
  | cons s l => rfl

/-- Of the entries up to a number, those of the asset and those of the others. -/
theorem upTo_split (entries : List EntryRecord) (accountId : String) {asset : String}
    (hasset : asset.isEmpty = false) (n : Nat) :
    (((matching entries accountId "").filter fun e => !decide (n < e.sequenceNumber)).map
        (·.signed)).sum =
      (((matching entries accountId asset).filter fun e => !decide (n < e.sequenceNumber)).map
        (·.signed)).sum +
      ((entries.filter fun e => e.accountId == accountId && e.asset != asset &&
        decide (e.sequenceNumber ≤ n)).map (·.signed)).sum := by
  rw [signed_split fun e => e.asset == asset]
  congr 3
  · rw [matching_all, matching_named _ _ hasset]
    simp only [List.filter_filter]
    refine List.filter_congr fun e _ => ?_
    ac_rfl
  · rw [matching_all]
    simp only [List.filter_filter, bne, ← not_lt, decide_not]
    refine List.filter_congr fun e _ => ?_
    ac_rfl

/-- **The read via a snapshot and the direct one differ by what the snapshot leaves out.** -/
theorem TakenOf.all_assets {state : LedgerState} {recs : List PostingRecord}
    (h : Bookkeeping state recs) {old : List EntryRecord} {snap : BalanceSnapshot}
    (ht : TakenOf old snap) (hold : old <+: state.entries) :
    computeBalance state snap.accountId "" =
      snap.balance + ((matching state.entries snap.accountId "").filter fun e =>
          snap.lastSequence < e.sequenceNumber).foldl (fun acc e => acc + e.signed) 0 +
        ((state.entries.filter fun e => e.accountId == snap.accountId && e.asset != snap.asset &&
          decide (e.sequenceNumber ≤ snap.lastSequence)).map (·.signed)).sum := by
  have hdelta := ht.balance_delta h hold
  unfold computeBalance at hdelta ⊢
  simp only [foldl_signed] at hdelta ⊢
  have hall := signed_split (fun e => decide (snap.lastSequence < e.sequenceNumber))
    (matching state.entries snap.accountId "")
  have hnamed := signed_split (fun e => decide (snap.lastSequence < e.sequenceNumber))
    (matching state.entries snap.accountId snap.asset)
  have hupTo := upTo_split state.entries snap.accountId ht.asset snap.lastSequence
  omega

/-! ## 3. When both reads agree -/

/-- **The balance over all assets via a snapshot**, after every run and for every account id: it is
    the direct balance, the sum over the registered assets, if and only if what the last snapshot
    of the account leaves out comes to nothing. -/
theorem all_assets_via_snapshot_iff (digest : ByteArray → String) (salt : String)
    (calls : List Call) (accountId : String) :
    let state := runNew digest salt calls
    (balanceViaSnapshot state accountId "" = balance state accountId "" ∧
      balance state accountId "" = balanceOverAssets state accountId) ↔
    OthersSettled state accountId := by
  intro state
  have hr : Reachable digest salt state := ⟨calls, rfl⟩
  obtain ⟨recs, hbook⟩ := reachable_bookkeeping hr
  clear_value state
  rw [and_iff_left (balance_all_assets hr accountId)]
  have htaken : ∀ snap, lastSnapshotOf state accountId = some snap →
      snap.accountId = accountId ∧ ∃ old, old <+: state.entries ∧ TakenOf old snap := by
    intro snap hsnap
    have hmem := List.mem_filter.mp (List.mem_of_getLast? hsnap)
    exact ⟨eq_of_beq hmem.2, reachable_snapshotsTaken hr snap hmem.1⟩
  unfold balanceViaSnapshot balance
  rw [latestSnapshot_all]
  cases hacc : state.accounts.lookup accountId with
  | none =>
    -- nothing is booked on an account that does not exist
    refine iff_of_true rfl fun snap _ => ?_
    rw [List.filter_eq_nil_iff.mpr]
    · rfl
    · intro e he hsel
      obtain ⟨acc, _, _, hlookup, _⟩ := (reachable_checked hr e he).account
      simp only [Bool.and_eq_true] at hsel
      rw [eq_of_beq hsel.1.1, hacc] at hlookup
      cases hlookup
  | some acc =>
    simp only [Option.isNone_some, Option.isSome_some, Bool.false_eq_true, if_false, if_true]
    cases hsnap : lastSnapshotOf state accountId with
    | none => exact iff_of_true rfl fun snap h => by rw [hsnap] at h; cases h
    | some snap =>
      obtain ⟨rfl, old, hold, ht⟩ := htaken snap hsnap
      have hdiff := ht.all_assets hbook hold
      simp only [OthersSettled, hsnap, Option.some.injEq, forall_eq']
      omega

/-! Two postings between two users, in two assets, and a snapshot after them. -/

def twoAssetSupply (first second : String) : Supply :=
  { sampleSupply with
    uuid := fun k => [first, second].getD k "018bcfe5-6800-7000-8000-00000000000f" }

def twoAssetRequest (postingId asset : String) (amount : Nat) : PostingRequest where
  postingId := postingId
  entries := [⟨"uc", "DEBIT", amount, asset⟩, ⟨"ud", "CREDIT", amount, asset⟩]
  memo := none
  refTxId := none

def twoAssetCalls : List Call :=
  [ .createAccount ⟨some "uc", "user_custodial", "BOTH", "user_custodial-uc", none⟩ sampleSupply,
    .createAccount ⟨some "ud", "user_custodial", "BOTH", "user_custodial-ud", none⟩ sampleSupply,
    .post (twoAssetRequest "usd1" "USD" 100) (twoAssetSupply "e1" "e2"),
    .post (twoAssetRequest "eur1" "EUR" 50) (twoAssetSupply "e3" "e4"),
    .writeSnapshots sampleSupply ]

/-- The read via the snapshot, which is the one in EUR, forgets the 100 USD. -/
theorem all_assets_snapshot_differs :
    balanceViaSnapshot (runNew sampleDigest sampleSalt twoAssetCalls) "uc" "" = some 50 ∧
      balance (runNew sampleDigest sampleSalt twoAssetCalls) "uc" "" = some 150 := by
  decide +kernel

end LedgerAccounting
