/-
  File:      LedgerAccounting/Chain/Salts.lean
  Subject:   Chains under different salts: a chain written under one salt is rejected under another,
             and a chain continued under another salt is rejected under every salt.

  Between the two other updates of the hasher the salt has no delimiter. The same entry under two
  salts has the same text before the salt and the same text behind it, so that the two hashed byte
  strings differ whatever the lengths of the salts are.

  * `sealed_salt_unique`: an entry is sealed under one salt at most.
  * `runFrom_written`: what a run of the store adds is written under the salt of the run.
-/
import LedgerAccounting.Memory.ChainIntegrity

namespace LedgerAccounting

open Linked Runs

variable {digest : ByteArray → String} {salt s s₁ s₂ : String}

/-! ## 1. One entry under two salts -/

/-- Between one predecessor and one canonical text the hashed bytes determine the salt. -/
theorem hashInput_salt_inj {p : String} {c : ByteArray}
    (h : hashInput p s₁ c = hashInput p s₂ c) : s₁ = s₂ := by
  unfold hashInput at h
  have hfront : p.toByteArray ++ s₁.toByteArray = p.toByteArray ++ s₂.toByteArray :=
    (ByteArray.append_left_inj _).mp h
  exact String.toByteArray_inj.mp ((ByteArray.append_right_inj _).mp hfront)

/-- **An entry is sealed under one salt at most.** -/
theorem sealed_salt_unique {l l' : List EntryRecord} {e : EntryRecord}
    (hd : CollisionFree digest (hashInputs s₁ l ++ hashInputs s₂ l')) (he : e ∈ l) (he' : e ∈ l')
    (h₁ : Sealed digest s₁ e) (h₂ : Sealed digest s₂ e) : s₁ = s₂ := by
  obtain ⟨c, hc, ht⟩ := h₁
  obtain ⟨c', hc', ht'⟩ := h₂
  obtain rfl : c = c' := Option.some.inj (hc.symm.trans hc')
  have hinput : hashInput e.prevHash s₁ c = hashInput e.prevHash s₂ c :=
    hd _ (List.mem_append_left _ (mem_hashInputs s₁ he hc)) _
      (List.mem_append_right _ (mem_hashInputs s₂ he' hc)) (ht.symm.trans ht')
  exact hashInput_salt_inj hinput

/-! ## 2. Chains written under a salt -/

/-- The entries are written under the salt, from the chain head `g` on: linked from `g`, and each
    sealed under the salt. -/
structure WrittenUnder (digest : ByteArray → String) (salt g : String) (l : List EntryRecord) :
    Prop where
  linked : EntriesLinked g l
  seals : ∀ e ∈ l, Sealed digest salt e

theorem writtenUnder_append {g : String} {l m : List EntryRecord}
    (hl : WrittenUnder digest salt g l) (hm : WrittenUnder digest salt (entriesHead g l) m) :
    WrittenUnder digest salt g (l ++ m) where
  linked := linkedFrom_append.mpr ⟨hl.linked, hm.linked⟩
  seals e he := (List.mem_append.mp he).elim (hl.seals e) (hm.seals e)

/-- The store has added `back` to `front` under the salt, and its recorded head is the end. -/
structure Continued (digest : ByteArray → String) (salt : String) (front : List EntryRecord)
    (state : LedgerState) (back : List EntryRecord) : Prop where
  entries : state.entries = front ++ back
  written : WrittenUnder digest salt (entriesHead genesisHash front) back
  head : state.globalChainHead = entriesHead genesisHash (front ++ back)

/-- A transition under the salt continues what was continued under it. -/
theorem continued_transition {front : List EntryRecord} {state state' : LedgerState}
    (h : ∃ back, Continued digest salt front state back)
    (ht : Transition digest salt state state') :
    ∃ back, Continued digest salt front state' back := by
  obtain ⟨back, h⟩ := h
  cases ht with
  | keep => exact ⟨back, h⟩
  | account => exact ⟨back, h.entries, h.written, h.head⟩
  | snapshots => exact ⟨back, h.entries, h.written, h.head⟩
  | posting sup req parsed _ =>
    have hspec := createEntries_spec digest salt sup state req.postingId parsed
    have hlinked := hspec.linked
    rw [h.head, entriesHead, headFrom_append] at hlinked
    refine ⟨back ++ _, ?_, writtenUnder_append h.written ⟨hlinked, made_sealed hspec.made⟩, ?_⟩
    · rw [record_entries, h.entries, List.append_assoc]
    · rw [record_globalChainHead, hspec.prevHash, h.head, ← List.append_assoc]
      exact (headFrom_append EntryRecord.thisHash genesisHash (front ++ back) _).symm

variable (digest salt) in
/-- **What a run adds is written under its salt**, whatever salt the entries before it are written
    under. -/
theorem runFrom_written (calls : List Call) {state : LedgerState}
    (hhead : state.globalChainHead = entriesHead genesisHash state.entries) :
    ∃ back, Continued digest salt state.entries (runFrom digest salt calls state) back :=
  run_keeps (I := fun s => ∃ back, Continued digest salt state.entries s back)
    (fun _ _ => continued_transition) calls
    ⟨[], (List.append_nil _).symm, ⟨trivial, by simp⟩, by rw [hhead, List.append_nil]⟩

variable (digest salt) in
theorem runNew_written (calls : List Call) :
    WrittenUnder digest salt genesisHash (runNew digest salt calls).entries := by
  have hinv : ChainInv digest salt (runNew digest salt calls) := reachable_chainInv ⟨calls, rfl⟩
  exact ⟨hinv.linked, hinv.seals⟩

/-! ## 3. Chains under two salts -/

theorem CollisionFree.mono {bs cs : List ByteArray} (h : CollisionFree digest bs)
    (hc : ∀ b ∈ cs, b ∈ bs) : CollisionFree digest cs :=
  fun b hb b' hb' => h b (hc b hb) b' (hc b' hb')

/-- A list the verifier accepts under `s₂` holds no entry sealed under another salt. -/
theorem accepted_salt {l part : List EntryRecord} {g : String}
    (hd : CollisionFree digest (hashInputs s₁ part ++ hashInputs s₂ l)) (hpart : part ≠ [])
    (hin : ∀ e ∈ part, e ∈ l) (hs : ∀ e ∈ part, Sealed digest s₁ e)
    (hok : verifyEntries digest s₂ g l = .ok ()) : s₁ = s₂ := by
  obtain ⟨e, he⟩ := List.exists_mem_of_ne_nil part hpart
  have hall := ((verifyEntries_ok_iff g l).mp hok).2
  exact sealed_salt_unique hd he (hin e he) (hs e he) (hall e (hin e he))

/-- A chain written under one salt is rejected under another. -/
theorem written_rejected (hne : s₁ ≠ s₂) {front : List EntryRecord}
    (hfront : WrittenUnder digest s₁ genesisHash front) (hsome : front ≠ [])
    {state : LedgerState} (hentries : state.entries = front)
    (hd : CollisionFree digest (hashInputs s₁ front ++ hashInputs s₂ front)) :
    ∃ b, verifyChain digest s₂ state = .error b := by
  rw [verifyChain_error_iff]
  unfold verifyChain
  rw [hentries]
  exact fun hok => hne (accepted_salt hd hsome (fun _ he => he) hfront.seals hok)

/-- A chain continued under another salt is rejected under every salt: the salt of an accepted
    chain is that of its first part and that of its second. -/
theorem continued_rejected (hne : s₁ ≠ s₂) {front back : List EntryRecord}
    (hfront : WrittenUnder digest s₁ genesisHash front) (hsome : front ≠ [])
    (hback : WrittenUnder digest s₂ (entriesHead genesisHash front) back) (hmore : back ≠ [])
    {state : LedgerState} (hentries : state.entries = front ++ back)
    (hd : CollisionFree digest
      (hashInputs s₁ front ++ hashInputs s₂ back ++ hashInputs s (front ++ back))) :
    ∃ b, verifyChain digest s state = .error b := by
  rw [verifyChain_error_iff]
  unfold verifyChain
  rw [hentries]
  intro hok
  have h₁ : s₁ = s := by
    refine accepted_salt (hd.mono fun b hb => ?_) hsome (fun _ => List.mem_append_left _)
      hfront.seals hok
    rcases List.mem_append.mp hb with hb | hb
    · exact List.mem_append_left _ (List.mem_append_left _ hb)
    · exact List.mem_append_right _ hb
  have h₂ : s₂ = s := by
    refine accepted_salt (hd.mono fun b hb => ?_) hmore (fun _ => List.mem_append_right _)
      hback.seals hok
    rcases List.mem_append.mp hb with hb | hb
    · exact List.mem_append_left _ (List.mem_append_right _ hb)
    · exact List.mem_append_right _ hb
  exact hne (h₁.trans h₂.symm)

/-- **Salts separate chains**: a chain written under `s₁` fails under every other salt `s₂`, and
    continued under `s₂` it fails under every salt. -/
theorem salts_separate (digest : ByteArray → String) (s₁ s₂ : String) (hne : s₁ ≠ s₂)
    (front : List EntryRecord) (hfront : WrittenUnder digest s₁ genesisHash front)
    (hsome : front ≠ []) :
    (∀ state : LedgerState, state.entries = front →
      CollisionFree digest (hashInputs s₁ front ++ hashInputs s₂ front) →
      ∃ b, verifyChain digest s₂ state = .error b) ∧
    ∀ back, WrittenUnder digest s₂ (entriesHead genesisHash front) back → back ≠ [] →
      ∀ (s : String) (state : LedgerState), state.entries = front ++ back →
        CollisionFree digest
          (hashInputs s₁ front ++ hashInputs s₂ back ++ hashInputs s (front ++ back)) →
        ∃ b, verifyChain digest s state = .error b := by
  constructor
  · intro state hentries hd
    exact written_rejected hne hfront hsome hentries hd
  · intro back hback hmore s state hentries hd
    exact continued_rejected hne hfront hsome hback hmore hentries hd

/-- A second posting between the two accounts of the sample run. -/
def sampleSecond : PostingRequest where
  postingId := "bal2"
  entries := [⟨"op", "DEBIT", 40, "USD"⟩, ⟨"uc", "CREDIT", 40, "USD"⟩]
  memo := none
  refTxId := none

/-- The sample run under "s1", read under "s2", and its continuation under "s2", read under "s1". -/
theorem salts_separate_sample :
    (∃ b, verifyChain plainDigest "s2" (runNew plainDigest "s1" sampleCalls) = .error b) ∧
    ∃ b, verifyChain plainDigest "s1" (runFrom plainDigest "s2" [.post sampleSecond sampleSupply]
      (runNew plainDigest "s1" sampleCalls)) = .error b := by
  have hfree : ∀ bs, CollisionFree plainDigest bs := fun _ _ _ _ _ hb => plainDigest_injective hb
  have hhead : (runNew plainDigest "s1" sampleCalls).globalChainHead =
      entriesHead genesisHash (runNew plainDigest "s1" sampleCalls).entries :=
    (reachable_chainInv ⟨sampleCalls, rfl⟩).head
  obtain ⟨back, hback⟩ := runFrom_written plainDigest "s2" [.post sampleSecond sampleSupply] hhead
  have hsome : (runNew plainDigest "s1" sampleCalls).entries ≠ [] := by decide +kernel
  have hmore : back ≠ [] := by
    rintro rfl
    have hlen : (runFrom plainDigest "s2" [.post sampleSecond sampleSupply]
        (runNew plainDigest "s1" sampleCalls)).entries.length ≠
        (runNew plainDigest "s1" sampleCalls).entries.length := by decide +kernel
    exact hlen (by rw [hback.entries, List.append_nil])
  have hboth := salts_separate plainDigest "s1" "s2" (by decide) _ (runNew_written _ _ sampleCalls)
    hsome
  exact ⟨hboth.1 _ rfl (hfree _), hboth.2 back hback.written hmore "s1" _ hback.entries (hfree _)⟩

/-- **Runs under two salts**: what one run has written is rejected under the salt of the other, and
    once both have written, under every salt. -/
theorem runs_salts_separate (hd : Function.Injective digest) (hne : s₁ ≠ s₂)
    (calls₁ calls₂ : List Call) (hsome : (runNew digest s₁ calls₁).entries ≠ []) :
    (∃ b, verifyChain digest s₂ (runNew digest s₁ calls₁) = .error b) ∧
    ((runFrom digest s₂ calls₂ (runNew digest s₁ calls₁)).entries ≠
        (runNew digest s₁ calls₁).entries →
      ∀ s, ∃ b, verifyChain digest s (runFrom digest s₂ calls₂ (runNew digest s₁ calls₁)) =
        .error b) := by
  have hfront := runNew_written digest s₁ calls₁
  have hfree : ∀ bs, CollisionFree digest bs := fun _ _ _ _ _ hb => hd hb
  refine ⟨written_rejected hne hfront hsome rfl (hfree _), fun hmore s => ?_⟩
  have hinv : ChainInv digest s₁ (runNew digest s₁ calls₁) := reachable_chainInv ⟨calls₁, rfl⟩
  obtain ⟨back, hback⟩ := runFrom_written digest s₂ calls₂ hinv.head
  have hnew : back ≠ [] := by
    rintro rfl
    exact hmore (hback.entries.trans (List.append_nil _))
  exact continued_rejected hne hfront hsome hback.written hnew hback.entries (hfree _)

end LedgerAccounting
