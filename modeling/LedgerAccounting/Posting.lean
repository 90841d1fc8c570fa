/-
  File:      LedgerAccounting/Posting.lean
  Subject:   Posting requests, entry and posting records, and the bytes an entry is hashed over
             (`posting.rs`).

  The digest of `compute_hash` (SHA-256 printed in hexadecimal) is not code of this repository: it
  is the parameter `digest`, a function from byte strings to texts. What a result needs of it is a
  hypothesis about the byte strings that result hashes (`DigestSound`), never about all byte
  strings: a digest of fixed length has collisions.
-/
import LedgerAccounting.Chart
import LedgerAccounting.Lib.Delimited

namespace LedgerAccounting

open Delimited

/-! ## 1. Requests, responses and records -/

structure EntryInput where
  accountId : String
  direction : String
  amount : Nat
  asset : String
  deriving DecidableEq, Repr

structure PostingRequest where
  postingId : String
  entries : List EntryInput
  memo : Option String
  refTxId : Option String
  deriving DecidableEq, Repr

structure PostingResponse where
  postingId : String
  status : String
  entryIds : List String
  hashHead : String
  deriving DecidableEq, Repr

structure EntryRecord where
  entryId : String
  postingId : String
  accountId : String
  direction : String
  amount : Nat
  asset : String
  sequenceNumber : Nat
  prevHash : String
  thisHash : String
  createdAt : String
  deriving DecidableEq, Repr

structure PostingRecord where
  postingId : String
  refTxId : Option String
  memo : Option String
  status : String
  hashHead : String
  entries : List EntryRecord
  createdAt : String
  deriving DecidableEq, Repr

/-! ## 2. The canonical bytes and the hash -/

def canonicalText (prevHash entryId accountId : String) (direction : Direction) (amount : Nat)
    (asset createdAt : String) : String :=
  prevHash ++ "|" ++ entryId ++ "|" ++ accountId ++ "|" ++ direction.text ++ "|" ++
    toString amount ++ "|" ++ asset ++ "|" ++ createdAt

def canonicalBytes (prevHash entryId accountId : String) (direction : Direction) (amount : Nat)
    (asset createdAt : String) : ByteArray :=
  (canonicalText prevHash entryId accountId direction amount asset createdAt).toByteArray

/-- The bytes `compute_hash` feeds to the hasher, in its three updates. -/
def hashInput (prevHash salt : String) (canonical : ByteArray) : ByteArray :=
  prevHash.toByteArray ++ salt.toByteArray ++ canonical

def computeHash (digest : ByteArray → String) (prevHash salt : String) (canonical : ByteArray) :
    String :=
  digest (hashInput prevHash salt canonical)

/-- The canonical bytes of a stored entry, `none` when its direction text is no direction. -/
def EntryRecord.canonical (e : EntryRecord) : Option ByteArray :=
  (parseDirection e.direction).map fun dir =>
    canonicalBytes e.prevHash e.entryId e.accountId dir e.amount e.asset e.createdAt

/-- No two of the byte strings `bs` collide. -/
def CollisionFree (digest : ByteArray → String) (bs : List ByteArray) : Prop :=
  ∀ b ∈ bs, ∀ b' ∈ bs, digest b = digest b' → b = b'

/-- What is assumed of the digest on the byte strings `bs`: no collision among them, 64 characters
    each, and never the genesis mark. -/
structure DigestSound (digest : ByteArray → String) (bs : List ByteArray) : Prop where
  collisionFree : CollisionFree digest bs
  length : ∀ b ∈ bs, (digest b).length = 64
  notGenesis : ∀ b ∈ bs, digest b ≠ genesisHash

theorem DigestSound.mono {digest : ByteArray → String} {bs cs : List ByteArray}
    (h : DigestSound digest bs) (hc : ∀ b ∈ cs, b ∈ bs) : DigestSound digest cs where
  collisionFree b hb b' hb' := h.collisionFree b (hc b hb) b' (hc b' hb')
  length b hb := h.length b (hc b hb)
  notGenesis b hb := h.notGenesis b (hc b hb)

theorem DigestSound.left {digest : ByteArray → String} {bs cs : List ByteArray}
    (h : DigestSound digest (bs ++ cs)) : DigestSound digest bs :=
  h.mono fun _ hb => List.mem_append_left _ hb

theorem DigestSound.right {digest : ByteArray → String} {bs cs : List ByteArray}
    (h : DigestSound digest (bs ++ cs)) : DigestSound digest cs :=
  h.mono fun _ hb => List.mem_append_right _ hb

/-! ## 3. Reading the hashed bytes back -/

/-- Under one predecessor the hashed bytes determine the canonical bytes. -/
theorem hashInput_cancel {p s : String} {c c' : ByteArray}
    (h : hashInput p s c = hashInput p s c') : c = c' :=
  ByteArray.append_right_inj _ |>.mp h

/-- **Under one salt the hashed bytes determine the predecessor and the canonical text**: both
    predecessors have one length, so they are the same front of one text. -/
theorem hashInput_inj {p p' s t t' : String} (hlen : p.length = p'.length)
    (h : hashInput p s t.toByteArray = hashInput p' s t'.toByteArray) : p = p' ∧ t = t' := by
  have htext : p ++ (s ++ t) = p' ++ (s ++ t') := by
    rw [← String.toByteArray_inj]
    simpa [hashInput, ByteArray.append_assoc] using h
  obtain ⟨hp, hst⟩ := string_append_inj hlen htext
  exact ⟨hp, (string_append_inj rfl hst).2⟩

theorem direction_text_free (d : Direction) : Free '|' d.text := by
  cases d <;> decide

theorem direction_text_inj {d d' : Direction} (h : d.text = d'.text) : d = d' := by
  have := parseDirection_text d
  rw [h, parseDirection_text] at this
  exact (Option.some.inj this).symm

/-- The last four fields can be cut off from the back of the joined text, when the asset and the
    timestamp are free of the delimiter. -/
theorem canonicalText_back {p i a s t p' i' a' s' t' : String} {d d' : Direction} {n n' : Nat}
    (hs : Free '|' s) (ht : Free '|' t) (hs' : Free '|' s') (ht' : Free '|' t')
    (h : canonicalText p i a d n s t = canonicalText p' i' a' d' n' s' t') :
    p ++ String.singleton '|' ++ (i ++ String.singleton '|' ++ a) =
        p' ++ String.singleton '|' ++ (i' ++ String.singleton '|' ++ a') ∧
      d = d' ∧ n = n' ∧ s = s' ∧ t = t' := by
  have hbar : "|" = String.singleton '|' := rfl
  unfold canonicalText at h
  rw [hbar] at h
  obtain ⟨h, ht⟩ := string_cut_back ht ht' h
  obtain ⟨h, hs⟩ := string_cut_back hs hs' h
  obtain ⟨h, hn⟩ := string_cut_back (repr_free (by decide) n) (repr_free (by decide) n') h
  obtain ⟨h, hd⟩ := string_cut_back (direction_text_free d) (direction_text_free d') h
  simp only [String.append_assoc] at h ⊢
  exact ⟨h, direction_text_inj hd, Nat.repr_inj.mp hn, hs, ht⟩

/-- **After one predecessor the joined text determines its fields** when every field but the
    account id is free of the delimiter: the entry id is cut off from the front, the last four
    fields from the back, and the account id is what stays. -/
theorem canonicalText_inj {p i a s t i' a' s' t' : String} {d d' : Direction} {n n' : Nat}
    (hi : Free '|' i) (hs : Free '|' s) (ht : Free '|' t)
    (hi' : Free '|' i') (hs' : Free '|' s') (ht' : Free '|' t')
    (h : canonicalText p i a d n s t = canonicalText p i' a' d' n' s' t') :
    i = i' ∧ a = a' ∧ d = d' ∧ n = n' ∧ s = s' ∧ t = t' := by
  obtain ⟨hfront, hback⟩ := canonicalText_back hs ht hs' ht' h
  obtain ⟨_, hfields⟩ := string_append_inj rfl hfront
  obtain ⟨hi, ha⟩ := string_cut_front hi hi' hfields
  exact ⟨hi, ha, hback⟩

end LedgerAccounting
