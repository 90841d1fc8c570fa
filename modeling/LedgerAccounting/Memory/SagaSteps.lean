/-
  File:      LedgerAccounting/Memory/SagaSteps.lean
  Subject:   Posting ids derived from a saga id and a step: when two steps of sagas keep apart.

  `derive_posting_id` joins both texts with an underscore, which either of them may contain. Two
  steps with one id are one posting to the store: the second is answered as a replay, the callers
  in `treasury.rs` drop the flag, and its movement is never booked.

  * `saga_steps_apart_iff`: the ids of two steps differ, and both movements are booked, exactly
    when neither step takes its underscore out of a field of the other.
-/
import LedgerAccounting.Memory.Reversal

namespace LedgerAccounting

open Runs Delimited

/-! ## 1. The ids -/

/-- The joined text of `q` is that of `p`, cut at an underscore of its saga id. -/
def CutsInto (p q : String × String) : Prop :=
  ∃ u, p.1 = q.1 ++ "_" ++ u ∧ q.2 = u ++ "_" ++ p.2

/-- **Two different steps are given one id exactly when one cuts into the other.** -/
theorem derivePostingId_eq_iff {p q : String × String} (hne : p ≠ q) :
    derivePostingId p.1 p.2 = derivePostingId q.1 q.2 ↔ CutsInto p q ∨ CutsInto q p := by
  have hjoin : ∀ p : String × String,
      derivePostingId p.1 p.2 = p.1 ++ String.singleton '_' ++ p.2 := by
    intro p
    rfl
  rw [hjoin, hjoin, string_joined_eq_iff, or_iff_right fun h => hne (Prod.ext h.1 h.2)]
  rfl

/-! ## 2. The movements -/

/-- A call of one of the two callers in `treasury.rs`, but for its posting id. -/
inductive Movement where
  | hedge (treasuryAccount venueAccount asset : String) (amount : Nat)
  | rebalance (fromAccount toAccount asset : String) (amount : Nat)

def Movement.request (m : Movement) (postingId : String) : PostingRequest :=
  match m with
  | .hedge treasury venue asset amount => hedgeRequest postingId treasury venue asset amount
  | .rebalance source target asset amount => rebalanceRequest postingId source target asset amount

/-- The entries do not depend on the posting id. -/
def Movement.entries (m : Movement) : List EntryInput := (m.request "").entries

theorem Movement.request_entries (m : Movement) (postingId : String) :
    (m.request postingId).entries = m.entries := by
  cases m <;> rfl

theorem Movement.request_id (m : Movement) (postingId : String) :
    (m.request postingId).postingId = postingId := by
  cases m <;> rfl

/-- The arguments are valid: the entries are those of a valid request, on accounts that can be
    booked. -/
structure Movement.Valid (m : Movement) (state : LedgerState) : Prop where
  wellFormed : WellFormed (m.request "")
  bookable : ∀ e ∈ m.entries, Bookable state e

section Calls

variable (digest : ByteArray → String) (salt : String)

def Movement.call (m : Movement) (sup : Supply) (postingId : String) (state : LedgerState) :
    Except String Unit × LedgerState :=
  match m with
  | .hedge treasury venue asset amount =>
    hedgeEntry digest salt sup postingId treasury venue asset amount state
  | .rebalance source target asset amount =>
    LedgerAccounting.rebalance digest salt sup postingId source target asset amount state

/-- Two calls with valid arguments under these ids, one after the other in a reachable state that
    has neither: both succeed, and every balance has changed by both net amounts. -/
def BothApplied (id id' : String) : Prop :=
  ∀ (calls : List Call) (m m' : Movement) (sup sup' : Supply),
    let state := runNew digest salt calls
    getPosting state id = none → getPosting state id' = none → m.Valid state → m'.Valid state →
    let first := m.call digest salt sup id state
    let second := m'.call digest salt sup' id' first.2
    first.1 = .ok () ∧ second.1 = .ok () ∧
      ∀ accountId asset, balance second.2 accountId asset = (balance state accountId asset).map
        (· + (netOn m.entries accountId asset + netOn m'.entries accountId asset))

end Calls

section Applied

variable {digest : ByteArray → String} {salt : String} {state : LedgerState}

theorem Movement.call_eq (m : Movement) (sup : Supply) (postingId : String) (state : LedgerState) :
    m.call digest salt sup postingId state =
      postSilently digest salt sup (m.request postingId) state := by
  cases m <;> rfl

theorem Movement.Valid.request {m : Movement} (h : m.Valid state) (postingId : String) :
    WellFormed (m.request postingId) ∧ ∀ e ∈ (m.request postingId).entries, Bookable state e := by
  obtain ⟨⟨hsize, hentries, hbalanced⟩, hbook⟩ := h
  have hsame := m.request_entries postingId
  exact ⟨⟨by rw [hsame]; exact hsize, by rw [hsame]; exact hentries,
    by rw [hsame]; exact hbalanced⟩, by rw [hsame]; exact hbook⟩

/-- The accounts of valid arguments are there as long as no account is taken away. -/
theorem Movement.Valid.stays {m : Movement} {state' : LedgerState} (h : m.Valid state)
    (ha : state'.accounts = state.accounts) : m.Valid state' where
  wellFormed := h.wellFormed
  bookable := by
    intro e he
    obtain ⟨acc, t, hacc, hrest⟩ := h.bookable e he
    exact ⟨acc, t, by rw [getAccount, ha]; exact hacc, hrest⟩

variable (digest salt) in
/-- **Under a free id the movement is booked.** -/
theorem Movement.call_free {m : Movement} (h : m.Valid state) {postingId : String}
    (hfree : getPosting state postingId = none) (sup : Supply) :
    let result := m.call digest salt sup postingId state
    result.1 = .ok () ∧ result.2.accounts = state.accounts ∧
      (∀ id, id ≠ postingId → getPosting result.2 id = getPosting state id) ∧
      (∃ rec, getPosting result.2 postingId = some rec) ∧
      ∀ accountId asset, computeBalance result.2 accountId asset =
        computeBalance state accountId asset + netOn m.entries accountId asset := by
  intro result
  obtain ⟨hw, hb⟩ := h.request postingId
  have hid := m.request_id postingId
  obtain ⟨r, hr⟩ := post_fresh digest salt hw hb (by rw [hid]; exact hfree) sup
  obtain ⟨hbalance, haccounts, _⟩ := fresh_effect hr
  obtain ⟨rec, hrec, _⟩ := fresh_recorded hr
  obtain ⟨parsed, ha⟩ := accepts_of_fresh digest salt sup hr
  have hresult : result = (.ok (), (post digest salt sup (m.request postingId) state).2) := by
    show m.call digest salt sup postingId state = _
    rw [m.call_eq, postSilently]
    rcases hp : post digest salt sup (m.request postingId) state with ⟨answer, state'⟩
    rw [hp] at hr
    cases hr
    rfl
  rw [hresult]
  rw [hid] at hrec
  rw [m.request_entries] at hbalance
  refine ⟨rfl, haccounts, fun id hne => ?_, ⟨rec, hrec⟩, hbalance⟩
  rw [post_accepted digest salt sup ha]
  exact record_lookup_ne sup _ _ (by rw [hid]; exact hne)

/-- **Under a taken id the call succeeds and books nothing.** -/
theorem Movement.call_taken {m : Movement} (h : m.Valid state) {postingId : String}
    {rec : PostingRecord} (htaken : getPosting state postingId = some rec) (sup : Supply) :
    m.call digest salt sup postingId state = (.ok (), state) := by
  obtain ⟨parsed, hvalid⟩ := (validateRequest_isOk_iff _).mpr (h.request postingId).1
  rw [m.call_eq, postSilently,
    post_replayed digest salt sup hvalid (by rw [m.request_id]; exact htaken)]

/-- Under two different ids both movements are applied. -/
theorem bothApplied_of_ne {id id' : String} (hne : id ≠ id') : BothApplied digest salt id id' := by
  intro calls m m' sup sup' state hfree hfree' hm hm' first second
  obtain ⟨hok, haccounts, hothers, _, hbalance⟩ :=
    Movement.call_free digest salt hm hfree sup
  obtain ⟨hok', haccounts', _, _, hbalance'⟩ :=
    Movement.call_free digest salt (hm'.stays haccounts)
      (by rw [hothers id' hne.symm]; exact hfree') sup'
  refine ⟨hok, hok', fun accountId asset => balance_changed (haccounts'.trans haccounts) ?_⟩
  show computeBalance second.2 accountId asset = _
  rw [show computeBalance second.2 accountId asset = _ from hbalance' accountId asset,
    hbalance accountId asset, add_assoc]

end Applied

/-! ## 3. Steps that keep apart -/

/-- A transfer of 100 USD between the two users of `twoUsers`. -/
def sampleMovement : Movement := .rebalance "uc" "ud" "USD" 100

theorem sampleMovement_valid (digest : ByteArray → String) (salt : String) :
    sampleMovement.Valid (runNew digest salt twoUsers) where
  wellFormed := by
    have hall : ∀ e ∈ sampleMovement.entries, (findAsset e.asset).isSome ∧
        (e.direction = "DEBIT" ∨ e.direction = "CREDIT") ∧ 1 ≤ e.amount ∧
        e.amount ≤ min maxAmount (maxAmountFor e.asset) := by decide
    refine ⟨by decide, fun e he => ?_, fun asset => ?_⟩
    · obtain ⟨hasset, hdir, hpos, hbound⟩ := hall e he
      exact ⟨hasset, hdir, hpos, hbound⟩
    · by_cases h : "USD" = asset <;>
        simp [requestTotal, sampleMovement, Movement.request, rebalanceRequest, transferRequest, h]
  bookable := by
    intro e he
    have hid : e.accountId = "uc" ∨ e.accountId = "ud" := by revert e; decide
    have hdir : e.direction ∈ ["DEBIT", "CREDIT"] := by revert e; decide
    exact twoUsers_bookable digest salt hid hdir

/-- Under one id the second movement is lost. -/
theorem not_bothApplied_self (digest : ByteArray → String) (salt id : String) :
    ¬ BothApplied digest salt id id := by
  intro h
  have hvalid := sampleMovement_valid digest salt
  obtain ⟨_, haccounts, _, ⟨rec, hrec⟩, hbalance⟩ :=
    Movement.call_free digest salt hvalid (show getPosting _ id = none from rfl) sampleSupply
  obtain ⟨_, _, hboth⟩ := h twoUsers sampleMovement sampleMovement sampleSupply sampleSupply rfl rfl
    hvalid hvalid
  have hlast := hboth "ud" "USD"
  rw [Movement.call_taken (hvalid.stays haccounts) hrec sampleSupply] at hlast
  rw [balance_changed haccounts (hbalance "ud" "USD")] at hlast
  have hnet : netOn sampleMovement.entries "ud" "USD" = 100 := by decide
  have hstart : balance (runNew digest salt twoUsers) "ud" "USD" = some 0 := rfl
  rw [hnet, hstart] at hlast
  cases hlast

/-- **When two different steps keep apart**: their ids differ exactly when neither step cuts into
    the other, and then, and only then, two calls under these ids with valid arguments both book
    their movement, in every reachable state that has neither posting. -/
theorem saga_steps_apart_iff (digest : ByteArray → String) (salt : String)
    (p q : String × String) (hne : p ≠ q) :
    (derivePostingId p.1 p.2 ≠ derivePostingId q.1 q.2 ↔ ¬ (CutsInto p q ∨ CutsInto q p)) ∧
    (BothApplied digest salt (derivePostingId p.1 p.2) (derivePostingId q.1 q.2) ↔
      ¬ (CutsInto p q ∨ CutsInto q p)) := by
  rw [← derivePostingId_eq_iff hne]
  refine ⟨Iff.rfl, fun h heq => ?_, bothApplied_of_ne⟩
  rw [heq] at h
  exact not_bothApplied_self digest salt _ h

theorem saga_steps_apart_iff_sample :
    (derivePostingId "saga-1" "step3" ≠ derivePostingId "saga-1" "step4" ↔
      ¬ (CutsInto ("saga-1", "step3") ("saga-1", "step4") ∨
        CutsInto ("saga-1", "step4") ("saga-1", "step3"))) ∧
    (BothApplied sampleDigest sampleSalt (derivePostingId "saga-1" "step3")
        (derivePostingId "saga-1" "step4") ↔
      ¬ (CutsInto ("saga-1", "step3") ("saga-1", "step4") ∨
        CutsInto ("saga-1", "step4") ("saga-1", "step3"))) :=
  saga_steps_apart_iff sampleDigest sampleSalt ("saga-1", "step3") ("saga-1", "step4") (by decide)

/-- **Two steps of two sagas under one id**: the second movement is answered with `Ok` and lost. -/
theorem saga_steps_swallowed :
    ("saga_1", "step") ≠ ("saga", "1_step") ∧
      derivePostingId "saga_1" "step" = derivePostingId "saga" "1_step" ∧
      let state := runNew sampleDigest sampleSalt twoUsers
      let first := sampleMovement.call sampleDigest sampleSalt sampleSupply
        (derivePostingId "saga_1" "step") state
      let second := sampleMovement.call sampleDigest sampleSalt sampleSupply
        (derivePostingId "saga" "1_step") first.2
      first.1 = .ok () ∧ second.1 = .ok () ∧ balance first.2 "ud" "USD" = some 100 ∧
        balance second.2 "ud" "USD" = some 100 := by
  decide +kernel

end LedgerAccounting
