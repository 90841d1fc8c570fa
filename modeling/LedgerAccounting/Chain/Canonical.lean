/-
  File:      LedgerAccounting/Chain/Canonical.lean
  Subject:   The canonical bytes of an entry name its hashed fields, whatever its account id is.

  The fields are joined with a bar and none is escaped. The account id comes from the caller and
  may look like further fields; it stands in the middle, so the fields before it are cut off from
  the front and those behind it from the back. Nothing else the ledger writes contains a bar: the
  asset is registered, the amount and the timestamp are numerals, the direction is one of two
  texts, the hash and the entry id are hexadecimal.

  * `canonical_unambiguous`: equal bytes are the bytes of equal fields.
  * `booked_canonical`: so are those of two entries of reachable states.
-/
import LedgerAccounting.Chain.Commitment
import LedgerAccounting.Memory.ChainIntegrity
import LedgerAccounting.Memory.StatementWindow

namespace LedgerAccounting

open Delimited Linked

/-! ## 1. The encoding -/

/-- **The encoding is unambiguous**: where the hash, the entry id, the asset and the timestamp are
    free of the delimiter, the bytes are equal exactly when all seven fields are. -/
theorem canonical_unambiguous {prevHash entryId accountId asset createdAt : String}
    {direction : Direction} {amount : Nat}
    {prevHash' entryId' accountId' asset' createdAt' : String} {direction' : Direction}
    {amount' : Nat}
    (hp : Free '|' prevHash) (hi : Free '|' entryId) (hs : Free '|' asset)
    (ht : Free '|' createdAt)
    (hp' : Free '|' prevHash') (hi' : Free '|' entryId') (hs' : Free '|' asset')
    (ht' : Free '|' createdAt') :
    canonicalBytes prevHash entryId accountId direction amount asset createdAt =
        canonicalBytes prevHash' entryId' accountId' direction' amount' asset' createdAt' ↔
      (prevHash, entryId, accountId, direction, amount, asset, createdAt) =
        (prevHash', entryId', accountId', direction', amount', asset', createdAt') := by
  constructor
  · intro h
    obtain ⟨hfront, rfl, rfl, rfl, rfl⟩ :=
      canonicalText_back hs ht hs' ht' (String.toByteArray_inj.mp h)
    obtain ⟨rfl, hfields⟩ := string_cut_front hp hp' hfront
    obtain ⟨rfl, rfl⟩ := string_cut_front hi hi' hfields
    rfl
  · intro h
    cases h
    rfl

/-- An account id that looks like the fields behind it does not make the bytes those of the plain
    account. -/
theorem canonical_unambiguous_sample :
    canonicalBytes genesisHash "e1" "uc|DEBIT|100|USD|1700000000" .debit 100 "USD" "1700000000" =
        canonicalBytes genesisHash "e1" "uc" .debit 100 "USD" "1700000000" ↔
      (genesisHash, "e1", "uc|DEBIT|100|USD|1700000000", Direction.debit, 100, "USD",
          "1700000000") =
        (genesisHash, "e1", "uc", Direction.debit, 100, "USD", "1700000000") :=
  canonical_unambiguous (by decide) (by decide) (by decide) (by decide) (by decide) (by decide)
    (by decide) (by decide)

/-! ## 2. What the ledger writes -/

section Booked

variable {digest : ByteArray → String} {salt : String} {state : LedgerState} {e : EntryRecord}

/-- A registered code is free of the delimiter. -/
theorem registered_free {code : String} {spec : AssetSpec} (h : findAsset code = some spec) :
    Free '|' code := by
  have hall : ∀ code ∈ assetRegistry.map (·.code), Free '|' code := by decide
  exact hall code (findAsset_registered h)

/-- The asset and the timestamp of a booked entry are free of the delimiter. -/
theorem booked_free (hr : Reachable digest salt state) (he : e ∈ state.entries) :
    Free '|' e.asset ∧ Free '|' e.createdAt := by
  obtain ⟨spec, hspec, _⟩ := (reachable_checked hr e he).asset
  obtain ⟨c, hc⟩ := reachable_stamped hr e he
  refine ⟨registered_free hspec, ?_⟩
  rw [hc]
  exact repr_free (by decide) c

/-- The hashes of linked and sealed entries are free of the delimiter where those of the digest and
    the first one are. -/
theorem linked_free (hd : ∀ b, Free '|' (digest b)) {g : String} (hg : Free '|' g)
    {l : List EntryRecord} (hl : EntriesLinked g l) (hs : ∀ e ∈ l, Sealed digest salt e) :
    ∀ e ∈ l, Free '|' e.prevHash := by
  induction l generalizing g with
  | nil => exact fun _ he => absurd he List.not_mem_nil
  | cons x l ih =>
    obtain ⟨hprev, hrest⟩ := hl
    rw [List.forall_mem_cons] at hs ⊢
    obtain ⟨⟨c, _, hthis⟩, hseals⟩ := hs
    have hfree : Free '|' x.thisHash := by
      rw [hthis]
      exact hd _
    rw [hprev]
    exact ⟨hg, ih hfree hrest hseals⟩

theorem booked_prevHash_free (hd : ∀ b, Free '|' (digest b)) (hr : Reachable digest salt state)
    (he : e ∈ state.entries) : Free '|' e.prevHash :=
  linked_free hd (by decide) (reachable_chainInv hr).linked (reachable_chainInv hr).seals e he

/-- **The canonical bytes of booked entries name their hashed fields**, also across two ledgers and
    two salts. The digests and the entry ids are hexadecimal, so neither has a bar. -/
theorem booked_canonical (hd : ∀ b, Free '|' (digest b)) {salt' : String} {state' : LedgerState}
    (hr : Reachable digest salt state) (hr' : Reachable digest salt' state') {e' : EntryRecord}
    (he : e ∈ state.entries) (he' : e' ∈ state'.entries) (hi : Free '|' e.entryId)
    (hi' : Free '|' e'.entryId) (h : e.canonical = e'.canonical) :
    e.prevHash = e'.prevHash ∧ e.entryId = e'.entryId ∧ e.accountId = e'.accountId ∧
      e.direction = e'.direction ∧ e.amount = e'.amount ∧ e.asset = e'.asset ∧
      e.createdAt = e'.createdAt := by
  obtain ⟨hs, ht⟩ := booked_free hr he
  obtain ⟨hs', ht'⟩ := booked_free hr' he'
  obtain ⟨c, hc, _⟩ := (reachable_chainInv hr).seals e he
  obtain ⟨dir, dir', hdir, hdir', htext⟩ := canonical_same hc (h ▸ hc)
  obtain ⟨hfront, hdd, hn, has, hat⟩ := canonicalText_back hs ht hs' ht' htext
  obtain ⟨hprev, hfields⟩ := string_cut_front (booked_prevHash_free hd hr he)
    (booked_prevHash_free hd hr' he') hfront
  obtain ⟨hid, hacc⟩ := string_cut_front hi hi' hfields
  refine ⟨hprev, hid, hacc, ?_, hn, has, hat⟩
  rw [hdir, hdir', hdd]

end Booked

end LedgerAccounting
