/-
  File:      LedgerAccounting/Chain/Loss.lean
  Subject:   Removing entries of a ledger while its postings, anchors and recorded head stay: which
             losses `verify_chain` detects.

  The verifier walks forward from the genesis mark and never compares the end of its walk with
  the recorded head or with an anchor. `loss_detected_iff` says what that costs: the loss of a
  tail, the whole list included, stays undetected.
-/
import LedgerAccounting.Memory.ChainIntegrity

namespace LedgerAccounting

open Linked

variable {digest : ByteArray → String} {salt : String}

/-- The ledger without the entries at the positions `gone`, and otherwise as it was. -/
def LedgerState.removeEntries (state : LedgerState) (gone : Finset ℕ) : LedgerState :=
  { state with entries := without gone 0 state.entries }

/-- What is left of a reachable ledger is accepted exactly when it is linked. -/
theorem removeEntries_ok_iff {state : LedgerState} (hr : Reachable digest salt state)
    (gone : Finset ℕ) :
    verifyChain digest salt (state.removeEntries gone) = .ok () ↔
      EntriesLinked genesisHash (without gone 0 state.entries) := by
  rw [verifyChain_ok_iff]
  refine ⟨And.left, fun h => ⟨h, fun e he => ?_⟩⟩
  exact (reachable_chainInv hr).seals e ((without_sublist gone 0 state.entries).subset he)

/-- **Loss, decided**: removing entries of a reachable ledger makes the verifier fail exactly when
    an entry that stays stood behind one that is gone. -/
theorem loss_detected_iff (digest : ByteArray → String) (salt : String) (state : LedgerState)
    (hr : Reachable digest salt state) (gone : Finset ℕ)
    (hd : DigestSound digest (hashInputs salt state.entries)) :
    (∃ b, verifyChain digest salt (state.removeEntries gone) = .error b) ↔
      ∃ i j, i < j ∧ j < state.entries.length ∧ i ∈ gone ∧ j ∉ gone := by
  have hinv := reachable_chainInv hr
  have hbinds := sealed_binds (hd.mono fun b hb => (List.mem_append.mp hb).elim id id) hinv.linked
    hinv.seals hinv.linked hinv.seals
  have hlinked := linked_without_iff hinv.linked hbinds (sealed_avoids hd hinv.seals) gone
  rw [verifyChain_error_iff, removeEntries_ok_iff hr, EntriesLinked, hlinked]
  push Not
  rfl

/-- The loss of the first of the two sample entries. -/
theorem loss_detected_sample :
    (∃ b, verifyChain sampleDigest sampleSalt (sampleState.removeEntries {0}) = .error b) ↔
      ∃ i j, i < j ∧ j < sampleState.entries.length ∧ i ∈ ({0} : Finset ℕ) ∧ j ∉ ({0} : Finset ℕ) :=
  loss_detected_iff sampleDigest sampleSalt sampleState sampleState_reachable {0} sampleDigest_sound

/-- **The loss of every entry stays undetected**, whatever is assumed of the digest: the walk over
    the empty list ends at once, and the recorded head is not looked at. -/
theorem loss_undetected :
    ¬ ∀ (digest : ByteArray → String) (salt : String) (state : LedgerState) (gone : Finset ℕ),
      Function.Injective digest → (∀ b, digest b ≠ genesisHash) → Reachable digest salt state →
      (∀ i ∈ gone, i < state.entries.length) → gone.Nonempty →
      ∃ b, verifyChain digest salt (state.removeEntries gone) = .error b := by
  intro h
  have hreach : Reachable plainDigest sampleSalt (runNew plainDigest sampleSalt sampleCalls) :=
    ⟨_, rfl⟩
  have hlen : (runNew plainDigest sampleSalt sampleCalls).entries.length = 2 := by decide +kernel
  have herr := h plainDigest sampleSalt _ {0, 1} plainDigest_injective plainDigest_ne_genesis hreach
    (by rw [hlen]; decide) (by simp)
  rw [verifyChain_error_iff, removeEntries_ok_iff hreach] at herr
  have hnone : without {0, 1} 0 (runNew plainDigest sampleSalt sampleCalls).entries = [] := by
    rw [without_eq_nil_iff, hlen]
    decide
  rw [hnone] at herr
  exact herr trivial

end LedgerAccounting
