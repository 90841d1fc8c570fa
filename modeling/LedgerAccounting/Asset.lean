/-
  File:      LedgerAccounting/Asset.lean
  Subject:   The asset registry and its amount bounds (`asset.rs`), with the two posting limits
             of `store.rs`.
-/
import Mathlib.Data.List.AList

namespace LedgerAccounting

/-! ## 1. The registry -/

structure AssetSpec where
  code : String
  assetClass : String
  scale : Nat
  maxAmount : Nat
  deriving DecidableEq, Repr

def AssetSpec.fiat (code : String) (scale maxAmount : Nat) : AssetSpec :=
  ⟨code, "FIAT", scale, maxAmount⟩

def AssetSpec.crypto (code : String) (scale maxAmount : Nat) : AssetSpec :=
  ⟨code, "CRYPTO", scale, maxAmount⟩

def assetRegistry : List AssetSpec :=
  [ .fiat "USD" 2 1000000000000,
    .fiat "EUR" 2 1000000000000,
    .fiat "GBP" 2 1000000000000,
    .crypto "BTC" 8 21000000000000,
    .crypto "ETH" 18 1000000000000000000,
    .crypto "USDC" 6 1000000000000 ]

/-- `registry_map`: the hash map filled from the registry, in order. -/
def registryMap : AList (fun _ : String => AssetSpec) :=
  assetRegistry.foldl (fun m spec => m.insert spec.code spec) ∅

def findAsset (code : String) : Option AssetSpec :=
  registryMap.lookup code

/-! ## 2. The limits -/

/-- `MAX_ENTRIES_PER_POSTING` of `store.rs`. -/
def maxEntriesPerPosting : Nat := 64

/-- `MAX_AMOUNT` of `store.rs`. -/
def maxAmount : Nat := 1000000000000

def validateAmount (asset : String) (amount : Nat) : Except String Unit :=
  match findAsset asset with
  | none => .error s!"unknown asset: {asset}"
  | some spec =>
    if amount = 0 then .error "amount must be > 0"
    else if amount > spec.maxAmount then
      .error s!"amount {amount} exceeds MAX_AMOUNT {spec.maxAmount} for asset {asset}"
    else .ok ()

def maxAmountFor (asset : String) : Nat :=
  ((findAsset asset).map (·.maxAmount)).getD maxAmount

theorem validateAmount_ok_iff (asset : String) (amount : Nat) :
    validateAmount asset amount = .ok () ↔
      ∃ spec, findAsset asset = some spec ∧ 0 < amount ∧ amount ≤ spec.maxAmount := by
  unfold validateAmount
  cases h : findAsset asset with
  | none => simp
  | some spec =>
    by_cases h0 : amount = 0
    · simp [h0]
    · by_cases hmax : amount > spec.maxAmount
      · simp [h0, hmax]
      · simp [h0, hmax]
        omega

/-- The registry is keyed by code, and every entry is of class `FIAT` or `CRYPTO`. -/
theorem findAsset_some {code : String} {spec : AssetSpec} (h : findAsset code = some spec) :
    spec.code = code ∧ (spec.assetClass = "FIAT" ∨ spec.assetClass = "CRYPTO") := by
  have hmem : (⟨code, spec⟩ : Sigma fun _ : String => AssetSpec) ∈ registryMap.entries :=
    AList.mem_lookup_iff.mp h
  have hall : ∀ p ∈ registryMap.entries,
      p.2.code = p.1 ∧ (p.2.assetClass = "FIAT" ∨ p.2.assetClass = "CRYPTO") := by decide
  exact hall _ hmem

/-- A registered code is that of an element of the registry. -/
theorem findAsset_registered {code : String} {spec : AssetSpec} (h : findAsset code = some spec) :
    code ∈ assetRegistry.map (·.code) := by
  have hmem : (⟨code, spec⟩ : Sigma fun _ : String => AssetSpec) ∈ registryMap.entries :=
    AList.mem_lookup_iff.mp h
  have hall : ∀ p ∈ registryMap.entries, p.1 ∈ assetRegistry.map (·.code) := by decide
  exact hall _ hmem

end LedgerAccounting
