/-
  File:      LedgerAccounting/HashChain.lean
  Subject:   The hash chain over the entries (`hashchain.rs`): the verifier and the heads.

  * `verifyEntries_ok_iff`: the verifier accepts exactly the lists that are linked from the
    genesis mark and whose entries carry their own seal.
  * `sealed_binds`: under one salt, one hash means one predecessor and one text.
-/
import LedgerAccounting.State
import LedgerAccounting.Lib.Linked

namespace LedgerAccounting

open Linked

/-! ## 1. The verifier -/

structure ChainBreak where
  entryId : String
  reason : String
  deriving DecidableEq, Repr

section Verifier

variable (digest : ByteArray → String) (salt : String)

/-- The loop of `verify_chain`, from the running `prev_hash`. -/
def verifyEntries : String → List EntryRecord → Except ChainBreak Unit
  | _, [] => .ok ()
  | prevHash, e :: rest =>
    match parseDirection e.direction with
    | none => .error ⟨e.entryId, s!"invalid direction: {e.direction}"⟩
    | some dir =>
      let canonical :=
        canonicalBytes prevHash e.entryId e.accountId dir e.amount e.asset e.createdAt
      let expected := computeHash digest prevHash salt canonical
      if e.prevHash ≠ prevHash then
        .error ⟨e.entryId, s!"prev_hash mismatch: expected {prevHash}, got {e.prevHash}"⟩
      else if e.thisHash ≠ expected then
        .error ⟨e.entryId, s!"this_hash mismatch: expected {expected}, got {e.thisHash}"⟩
      else verifyEntries e.thisHash rest

def verifyChain (state : LedgerState) : Except ChainBreak Unit :=
  verifyEntries digest salt genesisHash state.entries

end Verifier

def globalHead (state : LedgerState) : String :=
  (state.entries.getLast?.map (·.thisHash)).getD genesisHash

/-! ## 2. What the verifier accepts -/

/-- The entry carries its own seal: its direction is one, and `this_hash` is the hash of its
    canonical bytes after its `prev_hash`. -/
def Sealed (digest : ByteArray → String) (salt : String) (e : EntryRecord) : Prop :=
  ∃ c, e.canonical = some c ∧ e.thisHash = computeHash digest e.prevHash salt c

/-- The entries are linked from `g` by their stored hashes. -/
abbrev EntriesLinked (g : String) (l : List EntryRecord) : Prop :=
  LinkedFrom EntryRecord.prevHash EntryRecord.thisHash g l

/-- The hash a list of entries ends with, `g` for the empty list. -/
abbrev entriesHead (g : String) (l : List EntryRecord) : String :=
  headFrom EntryRecord.thisHash g l

theorem globalHead_eq (state : LedgerState) :
    globalHead state = entriesHead genesisHash state.entries :=
  (headFrom_eq_getLast _ _ _).symm

variable {digest : ByteArray → String} {salt : String}

theorem sealed_congr {e e' : EntryRecord} (hc : e'.canonical = e.canonical)
    (hp : e'.prevHash = e.prevHash) (ht : e'.thisHash = e.thisHash) :
    Sealed digest salt e' ↔ Sealed digest salt e := by
  unfold Sealed
  rw [hc, hp, ht]

/-- **The verifier accepts exactly the linked lists of sealed entries.** -/
theorem verifyEntries_ok_iff (g : String) (l : List EntryRecord) :
    verifyEntries digest salt g l = .ok () ↔
      EntriesLinked g l ∧ ∀ e ∈ l, Sealed digest salt e := by
  induction l generalizing g with
  | nil => simp [verifyEntries, LinkedFrom]
  | cons e l ih =>
    rw [List.forall_mem_cons]
    simp only [verifyEntries, LinkedFrom, Sealed, EntryRecord.canonical]
    cases hd : parseDirection e.direction with
    | none => simp
    | some dir =>
      by_cases hp : e.prevHash = g
      · subst hp
        by_cases ht : e.thisHash = computeHash digest e.prevHash salt
            (canonicalBytes e.prevHash e.entryId e.accountId dir e.amount e.asset e.createdAt)
        · simp [← ht, ih, Sealed, EntryRecord.canonical]
        · simp [ht]
      · simp [hp]

theorem verifyChain_ok_iff (state : LedgerState) :
    verifyChain digest salt state = .ok () ↔
      EntriesLinked genesisHash state.entries ∧ ∀ e ∈ state.entries, Sealed digest salt e :=
  verifyEntries_ok_iff genesisHash state.entries

/-- A verifier that does not accept names a break. -/
theorem verifyChain_error_iff (state : LedgerState) :
    (∃ b, verifyChain digest salt state = .error b) ↔ ¬ verifyChain digest salt state = .ok () := by
  cases h : verifyChain digest salt state with
  | error b => simp
  | ok u => simp

/-! ## 3. Seals that bind -/

/-- The byte strings hashed for the entries of a list, by their stored `prev_hash`. -/
def hashInputs (salt : String) (l : List EntryRecord) : List ByteArray :=
  l.filterMap fun e => e.canonical.map (hashInput e.prevHash salt)

theorem mem_hashInputs (salt : String) {e : EntryRecord} {l : List EntryRecord} {c : ByteArray}
    (he : e ∈ l) (hc : e.canonical = some c) : hashInput e.prevHash salt c ∈ hashInputs salt l :=
  List.mem_filterMap.mpr ⟨e, he, by rw [hc]; rfl⟩

/-- The canonical bytes of an entry are those of a text that starts with its `prev_hash`. -/
theorem canonical_some {e : EntryRecord} {c : ByteArray} (h : e.canonical = some c) :
    ∃ dir, parseDirection e.direction = some dir ∧ c = (canonicalText e.prevHash e.entryId
      e.accountId dir e.amount e.asset e.createdAt).toByteArray := by
  unfold EntryRecord.canonical at h
  cases hd : parseDirection e.direction with
  | none => rw [hd] at h; cases h
  | some dir =>
    rw [hd] at h
    cases h
    exact ⟨dir, rfl, rfl⟩

/-- Entries with the same canonical bytes have the same canonical text. -/
theorem canonical_same {e e' : EntryRecord} {c : ByteArray} (h : e.canonical = some c)
    (h' : e'.canonical = some c) : ∃ d d', e.direction = d.text ∧ e'.direction = d'.text ∧
      canonicalText e.prevHash e.entryId e.accountId d e.amount e.asset e.createdAt =
        canonicalText e'.prevHash e'.entryId e'.accountId d' e'.amount e'.asset e'.createdAt := by
  obtain ⟨d, hd, hc⟩ := canonical_some h
  obtain ⟨d', hd', hc'⟩ := canonical_some h'
  exact ⟨d, d', parseDirection_some hd, parseDirection_some hd',
    String.toByteArray_inj.mp (hc.symm.trans hc')⟩

/-- Every seal of a verified list is 64 characters long and is not the genesis mark. -/
theorem sealed_mark {l : List EntryRecord} (hd : DigestSound digest (hashInputs salt l))
    (hs : ∀ e ∈ l, Sealed digest salt e) {e : EntryRecord} (he : e ∈ l) :
    e.thisHash.length = 64 ∧ e.thisHash ≠ genesisHash := by
  obtain ⟨c, hc, ht⟩ := hs e he
  rw [ht]
  exact ⟨hd.length _ (mem_hashInputs salt he hc), hd.notGenesis _ (mem_hashInputs salt he hc)⟩

/-- In a linked list of sealed entries every `prev_hash` is 64 characters long. -/
theorem sealed_prev_length {l : List EntryRecord} (hd : DigestSound digest (hashInputs salt l))
    (hl : EntriesLinked genesisHash l) (hs : ∀ e ∈ l, Sealed digest salt e) {e : EntryRecord}
    (he : e ∈ l) : e.prevHash.length = 64 := by
  obtain ⟨a, b, rfl⟩ := List.append_of_mem he
  obtain ⟨_, hprev, _⟩ := linkedFrom_append.mp hl
  rw [hprev]
  rcases headFrom_mem EntryRecord.thisHash genesisHash a with h | h
  · rw [h]; decide
  · obtain ⟨x, hx, hxe⟩ := List.mem_map.mp h
    rw [← hxe]
    exact (sealed_mark hd hs (List.mem_append_left _ hx)).1

/-- **Seals bind**: on linked lists of sealed entries equal hashes come from equal predecessors
    and equal canonical bytes. -/
theorem sealed_binds {l l' : List EntryRecord}
    (hd : DigestSound digest (hashInputs salt l ++ hashInputs salt l'))
    (hl : EntriesLinked genesisHash l) (hs : ∀ e ∈ l, Sealed digest salt e)
    (hl' : EntriesLinked genesisHash l') (hs' : ∀ e ∈ l', Sealed digest salt e) :
    Binds EntryRecord.prevHash EntryRecord.thisHash EntryRecord.canonical l l' := by
  intro e he e' he' heq
  obtain ⟨c, hc, ht⟩ := hs e he
  obtain ⟨c', hc', ht'⟩ := hs' e' he'
  have hinput : hashInput e.prevHash salt c = hashInput e'.prevHash salt c' :=
    hd.collisionFree _ (List.mem_append_left _ (mem_hashInputs salt he hc)) _
      (List.mem_append_right _ (mem_hashInputs salt he' hc')) (ht.symm.trans (heq.trans ht'))
  obtain ⟨dir, _, hct⟩ := canonical_some hc
  obtain ⟨dir', _, hct'⟩ := canonical_some hc'
  have hlen : e.prevHash.length = e'.prevHash.length := by
    rw [sealed_prev_length hd.left hl hs he, sealed_prev_length hd.right hl' hs' he']
  rw [hct, hct'] at hinput
  obtain ⟨hprev, htext⟩ := hashInput_inj hlen hinput
  exact ⟨hprev, by rw [hc, hc', hct, hct', htext]⟩

theorem sealed_avoids {l : List EntryRecord} (hd : DigestSound digest (hashInputs salt l))
    (hs : ∀ e ∈ l, Sealed digest salt e) : Avoids EntryRecord.thisHash genesisHash l :=
  fun _ he => (sealed_mark hd hs he).2

end LedgerAccounting
