/-
  File:      LedgerAccounting/Memory/AssetClass.lean
  Subject:   The asset classes of the registry, the accounts and the chart along the runs of the
             in-memory store.

  `create_account` checks the class of an account against the chart, and `post` checks that the
  asset of an entry is in the registry; no step compares the two. `asset_consistent_iff` says
  what that leaves: the books are consistent exactly when every posting that `post` accepted was.
-/
import LedgerAccounting.Memory.TrialBalance

namespace LedgerAccounting

open Runs

variable {digest : ByteArray → String} {salt : String}

/-! ## 1. What admits an asset -/

/-- The chart admits the class the account was created with. -/
def Account.Charted (acc : Account) : Prop :=
  ∃ t c, findType acc.typeName = some t ∧ parseAssetClass acc.assetClass = some c ∧
    assetClassAllowed t c = true

/-- The registry class of the asset is the account's, or the account holds both. -/
def Account.Admits (acc : Account) (asset : String) : Prop :=
  ∃ spec, findAsset asset = some spec ∧
    (spec.assetClass = acc.assetClass ∨ acc.assetClass = "BOTH")

/-- The chart type of the account admits the registry class of the asset. -/
def Account.TypeAdmits (acc : Account) (asset : String) : Prop :=
  ∃ spec t c, findAsset asset = some spec ∧ findType acc.typeName = some t ∧
    parseAssetClass spec.assetClass = some c ∧ assetClassAllowed t c = true

/-- What an account created through `validate` admits, its chart type admits. -/
theorem Account.Admits.type {acc : Account} {asset : String} (h : acc.Admits asset)
    (hc : acc.Charted) : acc.TypeAdmits asset := by
  obtain ⟨spec, hspec, hclass⟩ := h
  obtain ⟨t, c, ht, hparse, hallowed⟩ := hc
  rcases hclass with heq | hboth
  · exact ⟨spec, t, c, hspec, ht, heq ▸ hparse, hallowed⟩
  · rw [hboth] at hparse
    cases hparse
    rcases (findAsset_some hspec).2 with hfiat | hcrypto
    · exact ⟨spec, t, .fiat, hspec, ht, hfiat ▸ rfl, assetClassAllowed_of_both hallowed .fiat⟩
    · exact ⟨spec, t, .crypto, hspec, ht, hcrypto ▸ rfl, assetClassAllowed_of_both hallowed .crypto⟩

/-- Every entry is in an asset that its account admits, and hence the account's chart type. -/
def AssetConsistent (state : LedgerState) : Prop :=
  ∀ e ∈ state.entries, ∃ acc, state.accounts.lookup e.accountId = some acc ∧
    acc.Admits e.asset ∧ acc.TypeAdmits e.asset

/-! ## 2. Accounts stay charted -/

def AccountsCharted (state : LedgerState) : Prop :=
  ∀ id acc, state.accounts.lookup id = some acc → acc.Charted

theorem charted_transition {s s' : LedgerState} (h : AccountsCharted s)
    (ht : Transition digest salt s s') : AccountsCharted s' := by
  cases ht with
  | keep => exact h
  | posting => exact h
  | snapshots => exact h
  | account req r acc valid typeName assetClass _ _ =>
    intro id acc' hl
    by_cases hid : id = acc.accountId
    · subst hid
      rw [AList.lookup_insert] at hl
      cases hl
      obtain ⟨t, ht, hparse, hallowed, hname⟩ := validate_ok valid
      exact ⟨t, r.2, by rw [typeName, hname, ht], by rw [assetClass, hparse], hallowed⟩
    · rw [AList.lookup_insert_ne hid] at hl
      exact h id acc' hl

theorem reachable_charted {s : LedgerState} (h : Reachable digest salt s) : AccountsCharted s :=
  reachable_invariant (I := AccountsCharted) (fun _ _ hl => by cases hl)
    (fun _ _ => charted_transition) h

/-! ## 3. One call -/

/-- If the call is a posting that `post` accepts in `state`, every entry of it is in an asset its
    account admits. -/
def Call.Admitted (state : LedgerState) : Call → Prop
  | .post req _ => ∀ parsed, Accepts state req parsed → ∀ p ∈ parsed, ∃ acc,
      state.accounts.lookup p.accountId = some acc ∧ acc.Admits p.asset
  | _ => True

/-- A fresh account changes nothing about the entries there are. -/
theorem consistent_insert {s : LedgerState} {acc : Account}
    (hbooked : ∀ e ∈ s.entries, e.accountId ∈ s.accounts)
    (hfresh : s.accounts.lookup acc.accountId = none) :
    AssetConsistent { s with accounts := s.accounts.insert acc.accountId acc } ↔
      AssetConsistent s := by
  refine forall₂_congr fun e he => ?_
  have hne : e.accountId ≠ acc.accountId := by
    intro heq
    have hmem := hbooked e he
    rw [heq, ← AList.lookup_isSome, hfresh] at hmem
    cases hmem
  exact exists_congr fun acc' => by rw [AList.lookup_insert_ne hne]

/-- A recorded posting keeps the books consistent exactly when its own entries are. -/
theorem consistent_record {s : LedgerState} (hc : AccountsCharted s) (sup : Supply)
    (req : PostingRequest) (parsed : List ParsedEntry) :
    AssetConsistent (s.record sup req (createEntries digest salt sup s req.postingId parsed)) ↔
      AssetConsistent s ∧ ∀ p ∈ parsed, ∃ acc, s.accounts.lookup p.accountId = some acc ∧
        acc.Admits p.asset := by
  have hspec := createEntries_spec digest salt sup s req.postingId parsed
  have hlines := made_lines hspec.made
  unfold AssetConsistent
  rw [record_entries, record_accounts, List.forall_mem_append]
  refine and_congr_right fun _ => ?_
  -- an entry and the parsed entry it was made from have one line, and the line is all that counts
  let Q : DoubleEntry.Line String String Int → Prop := fun l =>
    ∃ acc, s.accounts.lookup l.account = some acc ∧ acc.Admits l.asset
  have hQ : (∀ e ∈ (createEntries digest salt sup s req.postingId parsed).createdEntries,
      Q e.line) ↔ ∀ p ∈ parsed, Q p.line := by
    rw [← List.forall_mem_map, hlines, List.forall_mem_map]
  refine Iff.trans (forall₂_congr fun e _ => exists_congr fun acc => ?_) hQ
  exact and_congr_right fun hl => ⟨And.left, fun h => ⟨h, h.type (hc _ acc hl)⟩⟩

/-- **One call keeps the books consistent exactly when it is admitted.** -/
theorem apply_consistent_iff {s : LedgerState} (hr : Reachable digest salt s) (c : Call) :
    AssetConsistent (apply digest salt c s).2 ↔ AssetConsistent s ∧ c.Admitted s := by
  cases c with
  | createAccount req sup =>
    rcases createAccount_cases sup req s with ⟨e, he⟩ | ⟨r, acc, _, _, hfresh, hc⟩
    · simp only [apply, he, Call.Admitted, and_true]
    · obtain ⟨journal, hbooks⟩ := reachable_books hr
      simp only [apply, hc, Call.Admitted, and_true]
      exact consistent_insert hbooks.booked hfresh
  | post req sup =>
    rcases post_cases digest salt sup req s with
      ⟨e, he⟩ | ⟨parsed, rec, hv, hrec, hp⟩ | ⟨parsed, ha⟩
    · have hno : ∀ parsed, ¬ Accepts s req parsed := by
        intro parsed ha
        rw [post_accepted digest salt sup ha] at he
        cases he
      simp only [apply, he, Call.Admitted, hno, false_imp_iff, implies_true, and_true]
    · have hno : ∀ parsed, ¬ Accepts s req parsed := by
        intro parsed ha
        rw [ha.fresh] at hrec
        cases hrec
      simp only [apply, hp, Call.Admitted, hno, false_imp_iff, implies_true, and_true]
    · have hone : ∀ parsed', Accepts s req parsed' ↔ parsed' = parsed :=
        fun parsed' => ⟨fun h => ha.valid.unique h.valid, fun h => h ▸ ha⟩
      simp only [apply, post_accepted digest salt sup ha, Call.Admitted, hone, forall_eq]
      exact consistent_record (reachable_charted hr) sup req parsed
  | writeSnapshots sup =>
    simp only [apply, writeSnapshots, Call.Admitted, and_true, AssetConsistent]

/-! ## 4. Whole runs -/

/-- **Asset consistency, decided over whole runs**: every state of a run is consistent with the
    chart exactly when every posting of the run that `post` accepts books its entries in assets
    that their accounts admit. -/
theorem asset_consistent_iff (digest : ByteArray → String) (salt : String) (calls : List Call) :
    (∀ before, before <+: calls → AssetConsistent (runNew digest salt before)) ↔
      ∀ before c, before ++ [c] <+: calls → c.Admitted (runNew digest salt before) := by
  constructor
  · intro h before c hp
    have hstate := h _ hp
    rw [runNew, runFrom, run_concat, apply_consistent_iff ⟨before, rfl⟩] at hstate
    exact hstate.2
  · intro h before hp
    induction before using List.reverseRecOn with
    | nil => exact fun e he => absurd he List.not_mem_nil
    | append_singleton before c ih =>
      rw [runNew, runFrom, run_concat, apply_consistent_iff ⟨before, rfl⟩]
      exact ⟨ih ((List.prefix_append before [c]).trans hp), h before c hp⟩

/-- Bitcoin between a custodial account and an operational account for fiat money. -/
def btcRequest : PostingRequest where
  postingId := "btc1"
  entries := [⟨"op", "DEBIT", 50000000, "BTC"⟩, ⟨"uc", "CREDIT", 50000000, "BTC"⟩]
  memo := none
  refTxId := none

/-- **Bitcoin is booked on a fiat account**: the run is accepted, and its state is inconsistent. -/
theorem asset_inconsistent :
    ¬ ∀ (digest : ByteArray → String) (salt : String) (state : LedgerState),
      Reachable digest salt state → AssetConsistent state := by
  intro h
  have hstate :=
    h sampleDigest sampleSalt _ ⟨sampleAccounts ++ [.post btcRequest sampleSupply], rfl⟩
  have hentry : ∃ e ∈ (runNew sampleDigest sampleSalt
      (sampleAccounts ++ [.post btcRequest sampleSupply])).entries,
      e.accountId = "op" ∧ e.asset = "BTC" := by decide +kernel
  have hacc : ((runNew sampleDigest sampleSalt
      (sampleAccounts ++ [.post btcRequest sampleSupply])).accounts.lookup "op").map
        (·.assetClass) = some "FIAT" := by decide +kernel
  have hbtc : (findAsset "BTC").map (·.assetClass) = some "CRYPTO" := by decide +kernel
  obtain ⟨e, he, hid, hasset⟩ := hentry
  obtain ⟨acc, hl, ⟨spec, hspec, hclass⟩, _⟩ := hstate e he
  rw [hid] at hl
  rw [hasset] at hspec
  rw [hl, Option.map_some, Option.some.injEq] at hacc
  rw [hspec, Option.map_some, Option.some.injEq] at hbtc
  rw [hacc, hbtc] at hclass
  exact absurd hclass (by decide)

end LedgerAccounting
