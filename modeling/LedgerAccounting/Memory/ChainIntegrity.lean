/-
  File:      LedgerAccounting/Memory/ChainIntegrity.lean
  Subject:   The in-memory store keeps its own hash chain: the writer in `post_via_memory` and the
             verifier agree in every reachable state, and the recorded head is the chain's.
-/
import LedgerAccounting.Run

namespace LedgerAccounting

open Linked Runs

variable {digest : ByteArray → String} {salt : String}

/-! ## 1. The invariant -/

/-- The entries are linked from the genesis mark and sealed, and the recorded head is theirs. -/
structure ChainInv (digest : ByteArray → String) (salt : String) (state : LedgerState) : Prop where
  linked : EntriesLinked genesisHash state.entries
  seals : ∀ e ∈ state.entries, Sealed digest salt e
  head : state.globalChainHead = entriesHead genesisHash state.entries

theorem chainInv_new : ChainInv digest salt .new where
  linked := trivial
  seals _ h := absurd h List.not_mem_nil
  head := rfl

/-- Records made from parsed entries are sealed. -/
theorem chainInv_transition {s s' : LedgerState} (h : ChainInv digest salt s)
    (ht : Transition digest salt s s') : ChainInv digest salt s' := by
  cases ht with
  | keep => exact h
  | account => exact ⟨h.linked, h.seals, h.head⟩
  | snapshots => exact ⟨h.linked, h.seals, h.head⟩
  | posting sup req parsed _ =>
    have hspec := createEntries_spec digest salt sup s req.postingId parsed
    have hlinked := hspec.linked
    rw [h.head] at hlinked
    refine ⟨linkedFrom_append.mpr ⟨h.linked, hlinked⟩, fun e he => ?_, ?_⟩
    · rcases List.mem_append.mp he with he | he
      · exact h.seals e he
      · exact made_sealed hspec.made e he
    · rw [record_globalChainHead, record_entries, entriesHead, headFrom_append, hspec.prevHash,
        h.head]

/-- **The chain invariant in every reachable state.** -/
theorem reachable_chainInv {s : LedgerState} (h : Reachable digest salt s) :
    ChainInv digest salt s :=
  reachable_invariant chainInv_new (fun _ _ => chainInv_transition) h

/-! ## 2. The heads a run has returned -/

/-- The head hash of an answer to a fresh posting. -/
def Answer.freshHead : Answer → Option String
  | .posting (.ok (r, false)) => some r.hashHead
  | _ => none

/-- The head hashes the fresh postings of a run have returned, in order. -/
def freshHeads (digest : ByteArray → String) (salt : String) (calls : List Call) : List String :=
  (outputs (apply digest salt) calls .new).filterMap Answer.freshHead

/-- One call moves the recorded head to the head it returns, if it returns one. -/
theorem apply_freshHead (c : Call) (state : LedgerState) :
    (apply digest salt c state).2.globalChainHead =
      ((apply digest salt c state).1.freshHead).getD state.globalChainHead := by
  cases c with
  | createAccount req sup =>
    rcases createAccount_cases sup req state with ⟨e, he⟩ | ⟨r, acc, _, _, _, hc⟩
    · simp only [apply, he, Answer.freshHead, Option.getD_none]
    · simp only [apply, hc, Answer.freshHead, Option.getD_none]
  | post req sup =>
    rcases post_cases digest salt sup req state with
      ⟨e, he⟩ | ⟨parsed, rec, _, _, hrec⟩ | ⟨parsed, ha⟩
    · simp only [apply, he, Answer.freshHead, Option.getD_none]
    · simp only [apply, hrec, Answer.freshHead, Option.getD_none]
    · simp only [apply, post_accepted digest salt sup ha, Answer.freshHead, Option.getD_some,
        record_globalChainHead]
  | writeSnapshots sup => rfl

/-- **The recorded head is the last head a fresh posting has returned.** -/
theorem head_eq_last_returned (calls : List Call) :
    (runNew digest salt calls).globalChainHead =
      (freshHeads digest salt calls).getLast?.getD genesisHash := by
  induction calls using List.reverseRecOn with
  | nil => rfl
  | append_singleton calls c ih =>
    rw [runNew, runFrom, run_concat, apply_freshHead, freshHeads, outputs_concat,
      List.filterMap_append]
    cases hc : (apply digest salt c (run (apply digest salt) calls .new)).1.freshHead with
    | none => simpa [hc, freshHeads] using ih
    | some head => simp [hc]

/-! ## 3. The chain verifies -/

/-- **The writer and the verifier agree after every run**: `verify_chain` accepts, and
    `global_chain_head` is the head of the entries and the last head a fresh posting returned. -/
theorem chain_verifies (digest : ByteArray → String) (salt : String) (calls : List Call) :
    let state := runNew digest salt calls
    verifyChain digest salt state = .ok () ∧
      globalChainHead state = globalHead state ∧
      (state.entries = [] → globalChainHead state = genesisHash) ∧
      globalChainHead state = (freshHeads digest salt calls).getLast?.getD genesisHash := by
  intro state
  have hinv : ChainInv digest salt state := reachable_chainInv ⟨calls, rfl⟩
  refine ⟨(verifyChain_ok_iff state).mpr ⟨hinv.linked, hinv.seals⟩, ?_, fun hnil => ?_, ?_⟩
  · rw [globalHead_eq]
    exact hinv.head
  · rw [globalChainHead, hinv.head, hnil]
    rfl
  · exact head_eq_last_returned calls

end LedgerAccounting
