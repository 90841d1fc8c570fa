/-
  File:      LedgerAccounting/Memory/Integrity.lean
  Subject:   Referential integrity of the in-memory store: what an entry names is there and admits
             it, in every reachable state.

  `create_account` checks an account against the chart and `post` an entry against its account;
  neither check is repeated when the entries are read. `integrity_invariant` says that none needs
  to be: the branches of the source that answer for an unknown type or direction are dead.
-/
import LedgerAccounting.Memory.AppendOnly
import LedgerAccounting.Memory.AssetClass
import LedgerAccounting.Store.Listings

namespace LedgerAccounting

open Runs

/-! ## 1. What the checks leave of an entry -/

/-- What the checks of `post` have established of an entry, in terms of the accounts. -/
structure Checked (state : LedgerState) (e : EntryRecord) : Prop where
  account : ∃ acc t d, state.accounts.lookup e.accountId = some acc ∧ acc.status = "ACTIVE" ∧
    findType acc.typeName = some t ∧ e.direction = d.text ∧ directionAllowed t d = true
  asset : ∃ spec, findAsset e.asset = some spec ∧ e.amount ≤ spec.maxAmount
  amount : 1 ≤ e.amount ∧ e.amount ≤ maxAmount

section Checked

variable {digest : ByteArray → String} {salt : String}

theorem Checked.mono {s s' : LedgerState} {e : EntryRecord} (h : Checked s e)
    (ht : Transition digest salt s s') : Checked s' e where
  account := by
    obtain ⟨acc, t, d, hacc, hrest⟩ := h.account
    exact ⟨acc, t, d, transition_account ht hacc, hrest⟩
  asset := h.asset
  amount := h.amount

/-- The entries created for an accepted posting have passed the checks. -/
theorem created_checked {s : LedgerState} {req : PostingRequest} {parsed : List ParsedEntry}
    (ha : Accepts s req parsed) (sup : Supply) :
    ∀ e ∈ (createEntries digest salt sup s req.postingId parsed).createdEntries, Checked s e := by
  intro rec hrec
  have hvalid := ha.valid
  have hmade := (createEntries_spec digest salt sup s req.postingId parsed).made
  obtain ⟨p, hp, _, _, _, rfl⟩ := forall₂_mem_right hmade hrec
  obtain ⟨e, he, hparse⟩ := forall₂_mem_right hvalid.parses hp
  obtain ⟨_, _, hn, hs⟩ := (parseEntry_ok_iff e p).mp hparse
  obtain ⟨spec, hspec, hpos, hle, hmax⟩ := (checkAmount_ok_iff e).mp (hvalid.amounts e he)
  obtain ⟨acc, t, hacc, hactive, ht, hdir⟩ := (checkAccounts_ok_iff s parsed).mp ha.accounts p hp
  rw [← hs] at hspec
  rw [← hn] at hpos hle hmax
  exact ⟨⟨acc, t, p.dir, hacc, hactive, ht, rfl, hdir⟩, ⟨spec, hspec, hle⟩, hpos, hmax⟩

theorem checked_transition {s s' : LedgerState} (h : ∀ e ∈ s.entries, Checked s e)
    (ht : Transition digest salt s s') : ∀ e ∈ s'.entries, Checked s' e := by
  have hold : ∀ e ∈ s.entries, Checked s' e := fun e he => (h e he).mono ht
  cases ht with
  | keep => exact hold
  | account => exact hold
  | snapshots => exact hold
  | posting sup req parsed accepted =>
    intro e he
    rcases List.mem_append.mp he with he | he
    · exact hold e he
    · exact (created_checked accepted sup e he).mono (.posting sup req parsed accepted)

/-- **Every entry of a reachable state has passed the checks.** -/
theorem reachable_checked {s : LedgerState} (h : Reachable digest salt s) :
    ∀ e ∈ s.entries, Checked s e :=
  reachable_invariant (I := fun s => ∀ e ∈ s.entries, Checked s e)
    (fun _ he => absurd he List.not_mem_nil) (fun _ _ => checked_transition) h

/-- The posting an entry names is recorded. -/
theorem entry_posting {s : LedgerState} {recs : List PostingRecord} (h : Bookkeeping s recs)
    {e : EntryRecord} (he : e ∈ s.entries) : ∃ rec, getPosting s e.postingId = some rec := by
  rw [h.entries] at he
  obtain ⟨rec, hrec, hmem⟩ := List.mem_flatMap.mp he
  exact ⟨rec, (h.recorded _ _).mpr ⟨hrec, ((h.runs rec hrec).owned e hmem).symm⟩⟩

end Checked

/-! ## 2. The answer for an unknown account type -/

/-- The answer of `post` for an account whose type is not in the chart. -/
def PostError.UnknownType (err : PostError) : Prop :=
  ∃ typeName : String, err = .validation s!"unknown account type: {typeName}"

/-- An answer whose text starts differently is another one. -/
theorem not_unknownType {s : String} (h : s.toList.take 12 ≠ "unknown acco".toList) :
    ¬ (PostError.validation s).UnknownType := by
  intro hu
  obtain ⟨typeName, heq⟩ := hu
  rw [PostError.validation.inj heq] at h
  simp [ToString.toString] at h

theorem checkSize_known {req : PostingRequest} {err : PostError}
    (h : checkSize req = .error err) : ¬ err.UnknownType := by
  unfold checkSize at h
  split at h
  · cases h
    exact not_unknownType (by decide)
  · split at h
    · cases h
      exact not_unknownType (by simp [ToString.toString])
    · cases h

theorem checkAmount_known {e : EntryInput} {err : PostError}
    (h : checkAmount e = .error err) : ¬ err.UnknownType := by
  unfold checkAmount validateAmount at h
  by_cases h0 : e.amount = 0
  · rw [if_pos h0] at h
    cases h
    exact not_unknownType (by decide)
  · cases ha : findAsset e.asset with
    | none =>
      simp only [h0, ha, if_false] at h
      cases h
      exact not_unknownType (by simp [ToString.toString])
    | some spec =>
      simp only [h0, ha, if_false] at h
      by_cases hspec : e.amount > spec.maxAmount
      · simp only [hspec, if_true] at h
        cases h
        exact not_unknownType (by simp [ToString.toString])
      · by_cases hmax : e.amount > maxAmount
        · simp only [hspec, hmax, if_false, if_true] at h
          cases h
          exact not_unknownType (by simp [ToString.toString])
        · simp only [hspec, hmax, if_false] at h
          cases h

theorem parseEntry_known {e : EntryInput} {err : PostError}
    (h : parseEntry e = .error err) : ¬ err.UnknownType := by
  unfold parseEntry at h
  split at h
  · cases h
  · cases h
    exact not_unknownType (by simp [ToString.toString])

theorem checkSides_known {p : Sigma fun _ : String => Int × Int} {err : PostError}
    (h : checkSides p = .error err) : ¬ err.UnknownType := by
  unfold checkSides at h
  split at h
  · cases h
    intro hu
    obtain ⟨_, heq⟩ := hu
    cases heq
  · cases h

/-- No check on the request alone answers so. -/
theorem validateRequest_known {sup : Supply} {req : PostingRequest} {err : PostError}
    (h : validateRequest sup req = .error err) : ¬ err.UnknownType := by
  unfold validateRequest at h
  rcases bind_error h with h | ⟨_, _, h⟩
  · exact checkSize_known h
  rcases bind_error h with h | ⟨_, _, h⟩
  · obtain ⟨e, _, h⟩ := forM_error h
    exact checkAmount_known h
  rcases bind_error h with h | ⟨_, _, h⟩
  · obtain ⟨e, _, h⟩ := mapM_error h
    exact parseEntry_known h
  rcases bind_error h with h | ⟨_, _, h⟩
  · obtain ⟨p, _, h⟩ := forM_error h
    exact checkSides_known h
  · cases h

/-- On charted accounts no check on the accounts answers so. -/
theorem checkAccounts_known {s : LedgerState} (hc : AccountsCharted s)
    {parsed : List ParsedEntry} {err : PostError} (h : checkAccounts s parsed = .error err) :
    ¬ err.UnknownType := by
  unfold checkAccounts at h
  rcases bind_error h with h | ⟨_, _, h⟩
  · obtain ⟨p, _, h⟩ := forM_error h
    unfold checkActive at h
    split at h
    · split at h
      · cases h
        exact not_unknownType (by simp [ToString.toString])
      · cases h
    · cases h
      exact not_unknownType (by simp [ToString.toString])
  · obtain ⟨p, _, h⟩ := forM_error h
    unfold checkDirection at h
    split at h
    · cases h
      exact not_unknownType (by simp [ToString.toString])
    · rename_i acc hacc
      obtain ⟨t, _, ht, _⟩ := hc _ acc hacc
      unfold checkChart at h
      rw [ht] at h
      simp only at h
      split at h
      · cases h
      · cases h
        exact not_unknownType (by simp [ToString.toString])

/-- **On charted accounts `post` never answers that an account type is unknown.** -/
theorem post_known {digest : ByteArray → String} {salt : String} {s : LedgerState}
    (hc : AccountsCharted s) (sup : Supply) (req : PostingRequest) {err : PostError}
    (h : (post digest salt sup req s).1 = .error err) : ¬ err.UnknownType := by
  unfold post at h
  split at h
  · rename_i e he
    cases h
    exact validateRequest_known he
  · unfold postViaMemory at h
    split at h
    · cases h
    · split at h
      · rename_i e he
        cases h
        exact checkAccounts_known hc he
      · cases h

/-! ## 3. Other fallback arms -/

/-- The signed amount, with `other` in the place of the fallback arm. -/
def EntryRecord.signedOr (other : EntryRecord → Int) (e : EntryRecord) : Int :=
  match e.direction with
  | "DEBIT" => e.amount
  | "CREDIT" => -e.amount
  | _ => other e

/-- `compute_balance` with another fallback arm. -/
def computeBalanceOr (other : EntryRecord → Int) (state : LedgerState) (accountId asset : String) :
    Int :=
  (matching state.entries accountId asset).foldl (fun acc e => acc + e.signedOr other) 0

/-- `build_snapshot` with another fallback arm. -/
def buildSnapshotOr (other : EntryRecord → Int) (state : LedgerState)
    (accountId asset nowIso : String) : BalanceSnapshot :=
  let acc := (matching state.entries accountId asset).foldl
    (fun (acc : Int × String × Nat) e => (acc.1 + e.signedOr other, e.entryId, e.sequenceNumber))
    (0, "", 0)
  { accountId := accountId
    asset := if asset.isEmpty then "all" else asset
    balance := acc.1
    asOfTs := nowIso
    lastEntryId := acc.2.1
    lastSequence := acc.2.2 }

/-- The scan of `ledger` with another fallback arm. -/
def runningItemsOr (other : EntryRecord → Int) : Int → List EntryRecord → List LedgerEntryItem
  | _, [] => []
  | acc, e :: l =>
    e.item (acc + e.signedOr other) :: runningItemsOr other (acc + e.signedOr other) l

/-- `ledger` with another fallback arm. -/
def ledgerOr (other : EntryRecord → Int) (state : LedgerState) (accountId : String)
    (since till : Option String) (limit : Nat) (cursor : Option Nat) : Except String LedgerPage :=
  let limit := clampLimit limit
  if (state.accounts.lookup accountId).isNone then .error s!"account not found: {accountId}"
  else
    let entries := statementEntries state accountId since till cursor
    .ok
      { accountId := accountId
        entries := runningItemsOr other 0 (entries.take limit)
        nextCursor :=
          if entries.length > limit then (entries[limit - 1]?).map (·.sequenceNumber) else none
        finalBalance := computeBalanceOr other state accountId "" }

section Fallback

variable {other : EntryRecord → Int}

theorem signedOr_eq {e : EntryRecord} (h : ∃ d : Direction, e.direction = d.text) :
    e.signedOr other = e.signed := by
  obtain ⟨d, hd⟩ := h
  unfold EntryRecord.signedOr EntryRecord.signed
  rw [hd]
  cases d <;> rfl

/-- A fold that meets directions only does not meet its fallback arm. -/
theorem foldl_signedOr {l : List EntryRecord} (h : ∀ e ∈ l, ∃ d : Direction, e.direction = d.text)
    {β : Type*} (f : β → EntryRecord → Int → β) (z : β) :
    l.foldl (fun b e => f b e (e.signedOr other)) z = l.foldl (fun b e => f b e e.signed) z := by
  induction l generalizing z with
  | nil => rfl
  | cons e l ih =>
    rw [List.forall_mem_cons] at h
    rw [List.foldl_cons, List.foldl_cons, signedOr_eq h.1, ih h.2]

theorem runningItemsOr_eq {l : List EntryRecord}
    (h : ∀ e ∈ l, ∃ d : Direction, e.direction = d.text) (z : Int) :
    runningItemsOr other z l = runningItems z l := by
  induction l generalizing z with
  | nil => rfl
  | cons e l ih =>
    rw [List.forall_mem_cons] at h
    rw [runningItemsOr, runningItems, signedOr_eq h.1, ih h.2]

theorem statementEntries_subset (state : LedgerState) (accountId : String)
    (since till : Option String) (cursor : Option Nat) :
    statementEntries state accountId since till cursor ⊆ state.entries := by
  intro e he
  unfold statementEntries at he
  rw [List.mem_mergeSort] at he
  exact List.mem_of_mem_filter (List.mem_of_mem_filter
    (List.mem_of_mem_filter (List.mem_of_mem_filter he)))

variable {state : LedgerState}
  (h : ∀ e ∈ state.entries, ∃ d : Direction, e.direction = d.text)
include h

theorem computeBalanceOr_eq (accountId asset : String) :
    computeBalanceOr other state accountId asset = computeBalance state accountId asset :=
  foldl_signedOr (fun e he => h e (matching_subset _ _ _ he)) (fun z _ v => z + v) 0

theorem buildSnapshotOr_eq (accountId asset nowIso : String) :
    buildSnapshotOr other state accountId asset nowIso =
      buildSnapshot state accountId asset nowIso := by
  unfold buildSnapshotOr buildSnapshot
  rw [foldl_signedOr (fun e he => h e (matching_subset _ _ _ he))
    (fun (z : Int × String × Nat) e v => (z.1 + v, e.entryId, e.sequenceNumber)) (0, "", 0)]

theorem ledgerOr_eq (accountId : String) (since till : Option String) (limit : Nat)
    (cursor : Option Nat) :
    ledgerOr other state accountId since till limit cursor =
      ledger state accountId since till limit cursor := by
  have hpage : ∀ e ∈ (statementEntries state accountId since till cursor).take (clampLimit limit),
      ∃ d : Direction, e.direction = d.text := fun e he =>
    h e (statementEntries_subset _ _ _ _ _ (List.mem_of_mem_take he))
  unfold ledgerOr ledger
  simp only [runningItemsOr_eq hpage, computeBalanceOr_eq h]

end Fallback

/-! ## 4. Referential integrity -/

/-- **Referential integrity after every run**: an entry names an active account of the chart that
    allows its direction, a recorded posting and a registered asset, and its amount is within both
    bounds. So `post` never answers that an account type is unknown, and whatever the fallback arms
    of the direction matches did, balances, snapshots and statements would be the same. -/
theorem integrity_invariant (digest : ByteArray → String) (salt : String) (calls : List Call) :
    let state := runNew digest salt calls
    (∀ e ∈ state.entries,
      (∃ acc t c d, getAccount state e.accountId = some acc ∧ findType acc.typeName = some t ∧
        parseAssetClass acc.assetClass = some c ∧ assetClassAllowed t c = true ∧
        acc.status = "ACTIVE" ∧ parseDirection e.direction = some d ∧
        directionAllowed t d = true) ∧
      (getPosting state e.postingId).isSome ∧
      (∃ spec, findAsset e.asset = some spec ∧ e.amount ≤ spec.maxAmount) ∧
      (e.direction = "DEBIT" ∨ e.direction = "CREDIT") ∧
      1 ≤ e.amount ∧ e.amount ≤ maxAmount) ∧
    (∀ sup req err, (post digest salt sup req state).1 = .error err →
      ∀ typeName : String, err ≠ .validation s!"unknown account type: {typeName}") ∧
    (∀ other accountId asset,
      computeBalanceOr other state accountId asset = computeBalance state accountId asset) ∧
    (∀ other accountId asset nowIso, buildSnapshotOr other state accountId asset nowIso =
      buildSnapshot state accountId asset nowIso) ∧
    ∀ other accountId since till limit cursor,
      ledgerOr other state accountId since till limit cursor =
        ledger state accountId since till limit cursor := by
  intro state
  have hr : Reachable digest salt state := ⟨calls, rfl⟩
  obtain ⟨recs, hbook⟩ := reachable_bookkeeping hr
  have hcharted := reachable_charted hr
  have hchecked := reachable_checked hr
  have hdirs : ∀ e ∈ state.entries, ∃ d : Direction, e.direction = d.text := by
    intro e he
    obtain ⟨_, _, d, _, _, _, hd, _⟩ := (hchecked e he).account
    exact ⟨d, hd⟩
  refine ⟨fun e he => ?_, fun sup req err h typeName heq => ?_,
    fun _ => computeBalanceOr_eq hdirs, fun _ => buildSnapshotOr_eq hdirs,
    fun _ => ledgerOr_eq hdirs⟩
  · obtain ⟨acc, t, d, hacc, hactive, ht, hd, hallowed⟩ := (hchecked e he).account
    obtain ⟨t', c, ht', hc, hclass⟩ := hcharted _ acc hacc
    rw [ht] at ht'
    cases ht'
    obtain ⟨rec, hrec⟩ := entry_posting hbook he
    refine ⟨⟨acc, t, c, d, hacc, ht, hc, hclass, hactive, hd ▸ parseDirection_text d, hallowed⟩,
      Option.isSome_of_eq_some hrec, (hchecked e he).asset, ?_, (hchecked e he).amount⟩
    rw [hd]
    cases d
    · exact Or.inl rfl
    · exact Or.inr rfl
  · exact post_known hcharted sup req h ⟨typeName, heq⟩

end LedgerAccounting
