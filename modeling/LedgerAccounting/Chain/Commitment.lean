/-
  File:      LedgerAccounting/Chain/Commitment.lean
  Subject:   The head hash commits to the whole history: two verified chains with one head agree
             at every position.
-/
import LedgerAccounting.Run

namespace LedgerAccounting

open Linked Delimited

/-! ## 1. Verified chains with one head -/

/-- No field of the entry but its account id can contain the delimiter. -/
def EntryRecord.DelimiterFree (e : EntryRecord) : Prop :=
  Free '|' e.entryId ∧ Free '|' e.asset ∧ Free '|' e.createdAt

/-- Equal canonical bytes after one predecessor are equal fields. -/
theorem canonical_fields {e e' : EntryRecord} {c : ByteArray} (hc : e.canonical = some c)
    (hc' : e'.canonical = some c) (hp : e.prevHash = e'.prevHash) (hf : e.DelimiterFree)
    (hf' : e'.DelimiterFree) :
    e.entryId = e'.entryId ∧ e.accountId = e'.accountId ∧ e.direction = e'.direction ∧
      e.amount = e'.amount ∧ e.asset = e'.asset ∧ e.createdAt = e'.createdAt := by
  obtain ⟨dir, dir', hdir, hdir', htext⟩ := canonical_same hc hc'
  rw [hp] at htext
  obtain ⟨hid, hacc, hd, hn, hasset, hat⟩ :=
    canonicalText_inj hf.1 hf.2.1 hf.2.2 hf'.1 hf'.2.1 hf'.2.2 htext
  refine ⟨hid, hacc, ?_, hn, hasset, hat⟩
  rw [hdir, hdir', hd]

/-- **The head commits to the history**: two verified chains with one head have one length and
    agree, position by position, on canonical bytes and hashes; where no entry id, asset or
    timestamp contains the delimiter they agree on every hashed field. -/
theorem head_commits (digest : ByteArray → String) (salt : String) (s₁ s₂ : LedgerState)
    (hd : DigestSound digest (hashInputs salt s₁.entries ++ hashInputs salt s₂.entries))
    (h₁ : verifyChain digest salt s₁ = .ok ()) (h₂ : verifyChain digest salt s₂ = .ok ())
    (hh : globalHead s₁ = globalHead s₂) :
    s₁.entries.length = s₂.entries.length ∧
    List.Forall₂ (fun e e' => (∃ c, e.canonical = some c ∧ e'.canonical = some c) ∧
      e.prevHash = e'.prevHash ∧ e.thisHash = e'.thisHash) s₁.entries s₂.entries ∧
    ((∀ e ∈ s₁.entries ++ s₂.entries, e.DelimiterFree) →
      List.Forall₂ (fun e e' => e.entryId = e'.entryId ∧ e.accountId = e'.accountId ∧
        e.direction = e'.direction ∧ e.amount = e'.amount ∧ e.asset = e'.asset ∧
        e.createdAt = e'.createdAt) s₁.entries s₂.entries) := by
  obtain ⟨hl₁, hs₁⟩ := (verifyChain_ok_iff s₁).mp h₁
  obtain ⟨hl₂, hs₂⟩ := (verifyChain_ok_iff s₂).mp h₂
  rw [globalHead_eq, globalHead_eq] at hh
  have hall := linked_commits hl₁ hl₂ (sealed_binds hd hl₁ hs₁ hl₂ hs₂) (sealed_avoids hd.left hs₁)
    (sealed_avoids hd.right hs₂) hh
  have hagree : List.Forall₂ (fun e e' => (∃ c, e.canonical = some c ∧ e'.canonical = some c) ∧
      e.prevHash = e'.prevHash ∧ e.thisHash = e'.thisHash) s₁.entries s₂.entries := by
    refine forall₂_imp_mem hall fun e he e' _ ⟨hp, ht, hc⟩ => ⟨?_, hp, ht⟩
    obtain ⟨c, hec, _⟩ := hs₁ e he
    exact ⟨c, hec, hc ▸ hec⟩
  refine ⟨hagree.length_eq, hagree, fun hfree => ?_⟩
  refine forall₂_imp_mem hagree fun e he e' he' ⟨⟨c, hc, hc'⟩, hp, _⟩ => ?_
  exact canonical_fields hc hc' hp (hfree e (List.mem_append_left _ he))
    (hfree e' (List.mem_append_right _ he'))

/-- The sample ledger with its entries filed under another posting. -/
def sampleRefiled : LedgerState :=
  { sampleState with
    entries := sampleState.entries.map fun e =>
      { e with postingId := "bal2", sequenceNumber := 7 } }

theorem refile_hashInputs (salt id : String) (n : Nat) (l : List EntryRecord) :
    hashInputs salt (l.map fun e => { e with postingId := id, sequenceNumber := n }) =
      hashInputs salt l := by
  unfold hashInputs
  rw [List.filterMap_map]
  rfl

/-- The refiled entries carry the same head, and the same hashed fields. -/
theorem head_commits_sample :
    sampleState.entries.length = sampleRefiled.entries.length ∧
    List.Forall₂ (fun e e' => (∃ c, e.canonical = some c ∧ e'.canonical = some c) ∧
      e.prevHash = e'.prevHash ∧ e.thisHash = e'.thisHash)
      sampleState.entries sampleRefiled.entries ∧
    ((∀ e ∈ sampleState.entries ++ sampleRefiled.entries, e.DelimiterFree) →
      List.Forall₂ (fun e e' => e.entryId = e'.entryId ∧ e.accountId = e'.accountId ∧
        e.direction = e'.direction ∧ e.amount = e'.amount ∧ e.asset = e'.asset ∧
        e.createdAt = e'.createdAt) sampleState.entries sampleRefiled.entries) :=
  head_commits sampleDigest sampleSalt sampleState sampleRefiled
    (sampleDigest_sound.mono fun b hb => by
      rw [sampleRefiled, refile_hashInputs, List.mem_append, or_self] at hb
      exact hb)
    (by decide +kernel) (by decide +kernel) (by decide +kernel)
end LedgerAccounting
