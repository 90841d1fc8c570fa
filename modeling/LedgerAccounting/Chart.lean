/-
  File:      LedgerAccounting/Chart.lean
  Subject:   The chart of accounts and the account records (`chart.rs`, `account.rs`): account
             types, entry directions, asset classes, and what `create_account` admits.
-/
import Mathlib.Data.List.Basic

namespace LedgerAccounting

/-! ## 1. The enumerations -/

inductive NormalBalance where
  | debit
  | credit
  | either
  deriving DecidableEq, Repr

inductive Direction where
  | debit
  | credit
  deriving DecidableEq, Repr

inductive AssetClass where
  | fiat
  | crypto
  | both
  deriving DecidableEq, Repr

/-- The text every `match` on a `Direction` of the source writes. -/
def Direction.text : Direction → String
  | .debit => "DEBIT"
  | .credit => "CREDIT"

/-- The derived `Debug` text of a direction, used in one error message only. -/
def Direction.debug : Direction → String
  | .debit => "Debit"
  | .credit => "Credit"

/-! ## 2. The chart -/

structure AccountType where
  typeName : String
  normalBalance : NormalBalance
  allowedDirections : List String
  assetClass : AssetClass
  deriving Repr

def genesisHash : String := "0000000000000000000000000000000000000000000000000000000000000000"

def chart : List AccountType :=
  [ ⟨"user_custodial", .credit, ["DEBIT", "CREDIT"], .both⟩,
    ⟨"user_payable", .credit, ["DEBIT", "CREDIT"], .both⟩,
    ⟨"operational_fiat", .debit, ["DEBIT", "CREDIT"], .fiat⟩,
    ⟨"operational_crypto", .debit, ["DEBIT", "CREDIT"], .crypto⟩,
    ⟨"treasury_fiat", .debit, ["DEBIT", "CREDIT"], .fiat⟩,
    ⟨"treasury_crypto", .debit, ["DEBIT", "CREDIT"], .crypto⟩,
    ⟨"fx_gain_loss", .either, ["DEBIT", "CREDIT"], .both⟩,
    ⟨"fee_revenue", .credit, ["DEBIT", "CREDIT"], .both⟩,
    ⟨"rail_settlement", .debit, ["DEBIT", "CREDIT"], .fiat⟩,
    ⟨"venue_settlement", .debit, ["DEBIT", "CREDIT"], .both⟩,
    ⟨"chargeback_reserve", .credit, ["DEBIT", "CREDIT"], .both⟩ ]

def findType (typeName : String) : Option AccountType :=
  chart.find? (fun t => t.typeName == typeName)

def directionAllowed (accountType : AccountType) (direction : Direction) : Bool :=
  accountType.allowedDirections.contains direction.text

def assetClassAllowed (accountType : AccountType) (assetClass : AssetClass) : Bool :=
  match accountType.assetClass with
  | .both => true
  | other => other == assetClass

/-! ## 3. Accounts -/

structure Account where
  accountId : String
  typeName : String
  assetClass : String
  label : String
  parentId : Option String
  status : String
  createdAt : String
  deriving DecidableEq, Repr

structure CreateAccountRequest where
  accountId : Option String
  typeName : String
  assetClass : String
  label : String
  parentId : Option String
  deriving DecidableEq, Repr

def parseAssetClass (s : String) : Option AssetClass :=
  match s with
  | "FIAT" => some .fiat
  | "CRYPTO" => some .crypto
  | "BOTH" => some .both
  | _ => none

def validate (req : CreateAccountRequest) : Except String (String × AssetClass) :=
  match findType req.typeName with
  | none => .error s!"unknown account type: {req.typeName}"
  | some accountType =>
    match parseAssetClass req.assetClass with
    | none => .error s!"invalid asset_class: {req.assetClass}"
    | some assetClass =>
      if assetClassAllowed accountType assetClass then .ok (req.typeName, assetClass)
      else .error s!"asset_class {req.assetClass} not allowed for type {req.typeName}"

def parseDirection (s : String) : Option Direction :=
  match s with
  | "DEBIT" => some .debit
  | "CREDIT" => some .credit
  | _ => none

/-! ## 4. What the parsers accept -/

@[simp] theorem parseDirection_text (d : Direction) : parseDirection d.text = some d := by
  cases d <;> rfl

/-- A parsed direction is the text that was parsed. -/
theorem parseDirection_some {s : String} {d : Direction} (h : parseDirection s = some d) :
    s = d.text := by
  unfold parseDirection at h
  split at h
  · cases h; rfl
  · cases h; rfl
  · cases h

/-- An account the chart admits with a class of its own, or with `BOTH`, may hold every asset
    of a class that its `asset_class` text names. -/
theorem assetClassAllowed_of_both {t : AccountType} (h : assetClassAllowed t .both = true)
    (c : AssetClass) : assetClassAllowed t c = true := by
  unfold assetClassAllowed at h ⊢
  cases ht : t.assetClass <;> simp_all

/-- What `validate` has checked when it accepts a request. -/
theorem validate_ok {req : CreateAccountRequest} {r : String × AssetClass}
    (h : validate req = .ok r) :
    ∃ t, findType req.typeName = some t ∧ parseAssetClass req.assetClass = some r.2 ∧
      assetClassAllowed t r.2 = true ∧ r.1 = req.typeName := by
  unfold validate at h
  split at h
  · cases h
  · rename_i t ht
    split at h
    · cases h
    · rename_i c hc
      split at h
      · rename_i hallowed
        cases h
        exact ⟨t, ht, hc, hallowed, rfl⟩
      · cases h

end LedgerAccounting
