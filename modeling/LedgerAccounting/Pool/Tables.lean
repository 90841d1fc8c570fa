/-
  File:      LedgerAccounting/Pool/Tables.lean
  Subject:   The tables of the database (`migrations/`), their rows, and the conversions between a
             row and the record of `posting.rs` that the store binds and reads.

  Timestamps are whole seconds, as the store writes and reads them. Amounts and sequence numbers
  are natural numbers: a validated amount is at most `maxAmount`, and no table holds 2^63 rows.
-/
import LedgerAccounting.State
import Mathlib.Data.List.Sort

namespace LedgerAccounting

/-! ## 1. Rows -/

structure AccountRow where
  accountId : String
  typeName : String
  assetClass : String
  label : String
  parentId : Option String
  status : String
  createdAt : Nat
  deriving DecidableEq, Repr

structure PostingRow where
  postingId : String
  refTxId : Option String
  memo : Option String
  status : String
  hashChainHead : String
  createdAt : Nat
  deriving DecidableEq, Repr

structure EntryRow where
  entryId : String
  postingId : String
  accountId : String
  direction : String
  amount : Nat
  asset : String
  sequenceNumber : Nat
  prevHash : String
  thisHash : String
  createdAt : Nat
  deriving DecidableEq, Repr

structure AnchorRow where
  postingId : String
  headHash : String
  globalSequenceHead : String
  createdAt : Nat
  deriving DecidableEq, Repr

/-- `secs`, on the texts `now_iso` yields: a text that is no `i64` counts as 0. -/
def secs (s : String) : Nat :=
  match s.toNat? with
  | some n => if n < 2 ^ 63 then n else 0
  | none => 0

/-- The row the store binds for an entry. -/
def EntryRecord.row (e : EntryRecord) : EntryRow where
  entryId := e.entryId
  postingId := e.postingId
  accountId := e.accountId
  direction := e.direction
  amount := e.amount
  asset := e.asset
  sequenceNumber := e.sequenceNumber
  prevHash := e.prevHash
  thisHash := e.thisHash
  createdAt := secs e.createdAt

/-- The entry the store reads from a row: `amount::text` parsed as a `u64`, 0 when it is none, and
    the seconds of `created_at` as text. -/
def EntryRow.record (e : EntryRow) : EntryRecord where
  entryId := e.entryId
  postingId := e.postingId
  accountId := e.accountId
  direction := e.direction
  amount := if e.amount < 2 ^ 64 then e.amount else 0
  asset := e.asset
  sequenceNumber := e.sequenceNumber
  prevHash := e.prevHash
  thisHash := e.thisHash
  createdAt := toString e.createdAt

theorem secs_toString {n : Nat} (h : n < 2 ^ 63) : secs (toString n) = n := by
  have hparse : (toString n).toNat? = some n := Nat.toNat?_repr n
  unfold secs
  rw [hparse]
  simp only [h, if_true]

/-- **What the store binds it reads back**, for an amount of 64 bits and a timestamp that fits. -/
theorem record_row {e : EntryRecord} {n : Nat} (ha : e.amount < 2 ^ 64) (hn : n < 2 ^ 63)
    (hc : e.createdAt = toString n) : e.row.record = e := by
  have hsecs : toString (secs e.createdAt) = e.createdAt := by rw [hc, secs_toString hn]
  unfold EntryRecord.row EntryRow.record
  simp only [ha, if_true, hsecs]

/-! ## 2. Tables -/

structure Tables where
  accounts : List AccountRow
  postings : List PostingRow
  entries : List EntryRow
  hashChain : List AnchorRow
  deriving DecidableEq, Repr

def Tables.empty : Tables := ⟨[], [], [], []⟩

/-- The rows of both. -/
def Tables.append (t u : Tables) : Tables where
  accounts := t.accounts ++ u.accounts
  postings := t.postings ++ u.postings
  entries := t.entries ++ u.entries
  hashChain := t.hashChain ++ u.hashChain

instance : Append Tables := ⟨Tables.append⟩

@[simp] theorem append_accounts (t u : Tables) : (t ++ u).accounts = t.accounts ++ u.accounts := rfl

@[simp] theorem append_postings (t u : Tables) : (t ++ u).postings = t.postings ++ u.postings := rfl

@[simp] theorem append_entries (t u : Tables) : (t ++ u).entries = t.entries ++ u.entries := rfl

/-- The posting is a row of `postings`. -/
def Tables.HasPosting (t : Tables) (postingId : String) : Prop :=
  ∃ row ∈ t.postings, row.postingId = postingId

instance (t : Tables) (postingId : String) : Decidable (t.HasPosting postingId) :=
  inferInstanceAs (Decidable (∃ row ∈ t.postings, row.postingId = postingId))

def Tables.HasAccount (t : Tables) (accountId : String) : Prop :=
  ∃ row ∈ t.accounts, row.accountId = accountId

instance (t : Tables) (accountId : String) : Decidable (t.HasAccount accountId) :=
  inferInstanceAs (Decidable (∃ row ∈ t.accounts, row.accountId = accountId))

def Tables.HasEntry (t : Tables) (entryId : String) : Prop :=
  ∃ row ∈ t.entries, row.entryId = entryId

instance (t : Tables) (entryId : String) : Decidable (t.HasEntry entryId) :=
  inferInstanceAs (Decidable (∃ row ∈ t.entries, row.entryId = entryId))

def Tables.HasAnchor (t : Tables) (postingId : String) : Prop :=
  ∃ row ∈ t.hashChain, row.postingId = postingId

instance (t : Tables) (postingId : String) : Decidable (t.HasAnchor postingId) :=
  inferInstanceAs (Decidable (∃ row ∈ t.hashChain, row.postingId = postingId))

theorem hasPosting_append (t u : Tables) (id : String) :
    (t ++ u).HasPosting id ↔ t.HasPosting id ∨ u.HasPosting id := by
  unfold Tables.HasPosting
  simp only [append_postings, List.mem_append, or_and_right, exists_or]

/-! ## 3. What the queries ask for -/

/-- `rows` lists `l` in the order `ORDER BY sequence_number` gives it; ties may fall either way. -/
def Ordered (l rows : List EntryRow) : Prop :=
  rows.Perm l ∧ rows.Pairwise fun a b => a.sequenceNumber ≤ b.sequenceNumber

/-- `h` is a result of `SELECT this_hash ... ORDER BY sequence_number DESC LIMIT 1`. -/
def IsLastHash (l : List EntryRow) : Option String → Prop
  | none => l = []
  | some h => ∃ e ∈ l, e.thisHash = h ∧ ∀ e' ∈ l, e'.sequenceNumber ≤ e.sequenceNumber

instance (l : List EntryRow) : (h : Option String) → Decidable (IsLastHash l h)
  | none => inferInstanceAs (Decidable (l = []))
  | some h => inferInstanceAs (Decidable (∃ e ∈ l, e.thisHash = h ∧
      ∀ e' ∈ l, e'.sequenceNumber ≤ e.sequenceNumber))

/-- `COALESCE(MAX(sequence_number), 0)`. -/
def maxSequence (l : List EntryRow) : Nat := (l.map (·.sequenceNumber)).foldr max 0

/-- The rows of one posting. -/
def entriesOf (l : List EntryRow) (postingId : String) : List EntryRow :=
  l.filter fun e => e.postingId == postingId

theorem entriesOf_append (l m : List EntryRow) (id : String) :
    entriesOf (l ++ m) id = entriesOf l id ++ entriesOf m id := List.filter_append ..

theorem entriesOf_none {l : List EntryRow} {id : String} (h : ∀ e ∈ l, e.postingId ≠ id) :
    entriesOf l id = [] := List.filter_eq_nil_iff.mpr (by simpa using h)

theorem entriesOf_all {l : List EntryRow} {id : String} (h : ∀ e ∈ l, e.postingId = id) :
    entriesOf l id = l := List.filter_eq_self.mpr (by simpa using h)

/-- `a` may stand before `b` in a list ordered by sequence number. -/
def EntryRow.Before (a b : EntryRow) : Prop := a.sequenceNumber ≤ b.sequenceNumber

instance : DecidableRel EntryRow.Before :=
  fun a b => inferInstanceAs (Decidable (a.sequenceNumber ≤ b.sequenceNumber))

instance : Std.Total EntryRow.Before := ⟨fun a b => Nat.le_total a.sequenceNumber b.sequenceNumber⟩

instance : IsTrans EntryRow EntryRow.Before := ⟨fun _ _ _ h h' => Nat.le_trans h h'⟩

/-- The rows by sequence number, ties in the order of the table. -/
def bySequence (l : List EntryRow) : List EntryRow := l.insertionSort EntryRow.Before

theorem bySequence_ordered (l : List EntryRow) : Ordered l (bySequence l) :=
  ⟨List.perm_insertionSort _ l, List.pairwise_insertionSort _ l⟩

/-- The last row by sequence number, if there is one, has the largest number. -/
theorem bySequence_last (l : List EntryRow) :
    match (bySequence l).getLast? with
    | none => l = []
    | some e => e ∈ l ∧ ∀ e' ∈ l, e'.sequenceNumber ≤ e.sequenceNumber := by
  obtain ⟨hperm, hsorted⟩ := bySequence_ordered l
  rcases List.eq_nil_or_concat (bySequence l) with hnil | ⟨m, e, hm⟩
  · rw [hnil] at hperm ⊢
    exact List.nil_perm.mp hperm
  · rw [hm, List.concat_eq_append] at hperm hsorted
    rw [hm, List.concat_eq_append, List.getLast?_concat]
    refine ⟨hperm.subset (by simp), fun e' he' => ?_⟩
    rcases List.mem_append.mp (hperm.symm.subset he') with h | h
    · exact (List.pairwise_append.mp hsorted).2.2 e' h e (by simp)
    · rw [List.mem_singleton.mp h]

theorem le_maxSequence {l : List EntryRow} {e : EntryRow} (he : e ∈ l) :
    e.sequenceNumber ≤ maxSequence l := by
  unfold maxSequence
  induction l with
  | nil => exact absurd he List.not_mem_nil
  | cons a l ih =>
    rw [List.map_cons, List.foldr_cons]
    rcases List.mem_cons.mp he with rfl | he
    · exact le_max_left _ _
    · exact (ih he).trans (le_max_right _ _)

/-- A row that no row exceeds has the largest number. -/
theorem maxSequence_eq {l : List EntryRow} {e : EntryRow} (he : e ∈ l)
    (hmax : ∀ e' ∈ l, e'.sequenceNumber ≤ e.sequenceNumber) : maxSequence l = e.sequenceNumber := by
  refine Nat.le_antisymm ?_ (le_maxSequence he)
  clear he
  unfold maxSequence
  induction l with
  | nil => exact Nat.zero_le _
  | cons a l ih =>
    rw [List.map_cons, List.foldr_cons]
    rw [List.forall_mem_cons] at hmax
    exact max_le hmax.1 (ih hmax.2)

theorem maxSequence_append (l m : List EntryRow) :
    maxSequence (l ++ m) = max (maxSequence l) (maxSequence m) := by
  unfold maxSequence
  induction l with
  | nil => simp
  | cons a l ih =>
    rw [List.cons_append, List.map_cons, List.foldr_cons, ih, List.map_cons, List.foldr_cons,
      Nat.max_assoc]

/-- Numbers counted up from the largest one end with the largest one. -/
theorem max_foldr_range' (m n : Nat) : max m ((List.range' (m + 1) n).foldr max 0) = m + n := by
  induction n generalizing m with
  | zero => simp
  | succ n ih =>
    rw [List.range'_succ, List.foldr_cons, ih (m + 1)]
    omega

/-- **Rows with increasing sequence numbers have one order.** -/
theorem ordered_unique {l rows : List EntryRow} (h : Ordered l rows)
    (hl : l.Pairwise fun a b => a.sequenceNumber < b.sequenceNumber) : rows = l := by
  obtain ⟨hperm, hrows⟩ := h
  have hnodup : (l.map (·.sequenceNumber)).Nodup :=
    List.pairwise_map.mpr (hl.imp fun hlt => Nat.ne_of_lt hlt)
  have hinj := List.inj_on_of_nodup_map hnodup
  have hle : l.Pairwise fun a b => a.sequenceNumber ≤ b.sequenceNumber := hl.imp fun hlt => hlt.le
  refine List.Perm.eq_of_pairwise (fun a b ha hb hab hba => ?_) hrows hle hperm
  exact hinj (hperm.subset ha) hb (Nat.le_antisymm hab hba)

end LedgerAccounting
