/-
  File:      LedgerAccounting/Chain/Localisation.lean
  Subject:   What `verify_chain` accepts, entry by entry, and which entry it names when it does not.

  The loop carries the hash of the entry before; it stops at the first entry that does not fit, and
  nothing behind that entry is looked at.

  * `verifyEntries_eq_foldlM`: the verifier is a loop in the sense of Lib/Runs.lean.
  * `verify_chain_localises`: it names the first break.
-/
import LedgerAccounting.HashChain
import LedgerAccounting.Lib.Runs

namespace LedgerAccounting

open Linked Runs

/-! ## 1. The verifier as a loop -/

section Turn

variable (digest : ByteArray → String) (salt : String)

/-- One turn of the loop of `verify_chain`, from the running `prev_hash` to the next. -/
def verifyEntry (prevHash : String) (e : EntryRecord) : Except ChainBreak String :=
  match parseDirection e.direction with
  | none => .error ⟨e.entryId, s!"invalid direction: {e.direction}"⟩
  | some dir =>
    let canonical :=
      canonicalBytes prevHash e.entryId e.accountId dir e.amount e.asset e.createdAt
    let expected := computeHash digest prevHash salt canonical
    if e.prevHash ≠ prevHash then
      .error ⟨e.entryId, s!"prev_hash mismatch: expected {prevHash}, got {e.prevHash}"⟩
    else if e.thisHash ≠ expected then
      .error ⟨e.entryId, s!"this_hash mismatch: expected {expected}, got {e.thisHash}"⟩
    else .ok e.thisHash

/-- The entry fits behind the hash: its direction is one, `prev_hash` is the hash and `this_hash`
    that of its own canonical bytes. -/
structure FitsBehind (prevHash : String) (e : EntryRecord) : Prop where
  direction : e.direction = "DEBIT" ∨ e.direction = "CREDIT"
  prev : e.prevHash = prevHash
  this : ∃ dir, parseDirection e.direction = some dir ∧ e.thisHash =
    computeHash digest e.prevHash salt
      (canonicalBytes e.prevHash e.entryId e.accountId dir e.amount e.asset e.createdAt)

/-- The hash the entry at a position has to follow. -/
def hashBefore (l : List EntryRecord) : Nat → String
  | 0 => genesisHash
  | i + 1 => (l[i]?.map (·.thisHash)).getD genesisHash

variable {digest salt}

theorem verifyEntry_cases (g : String) (e : EntryRecord) :
    (FitsBehind digest salt g e ∧ verifyEntry digest salt g e = .ok e.thisHash) ∨
      (¬ FitsBehind digest salt g e ∧
        ∃ b, b.entryId = e.entryId ∧ verifyEntry digest salt g e = .error b) := by
  unfold verifyEntry
  cases hd : parseDirection e.direction with
  | none =>
    refine Or.inr ⟨fun h => ?_, _, rfl, rfl⟩
    obtain ⟨dir, hdir, _⟩ := h.this
    rw [hd] at hdir
    cases hdir
  | some dir =>
    by_cases hp : e.prevHash = g
    · subst hp
      by_cases ht : e.thisHash = computeHash digest e.prevHash salt
          (canonicalBytes e.prevHash e.entryId e.accountId dir e.amount e.asset e.createdAt)
      · refine Or.inl ⟨⟨?_, rfl, dir, hd, ht⟩, ?_⟩
        · rw [parseDirection_some hd]
          cases dir
          · exact Or.inl rfl
          · exact Or.inr rfl
        · simp only [ne_eq, not_true_eq_false, if_false, ← ht]
      · refine Or.inr ⟨fun h => ?_, ?_⟩
        · obtain ⟨dir', hdir', ht'⟩ := h.this
          rw [hd] at hdir'
          cases hdir'
          exact ht ht'
        · simp only [ne_eq, not_true_eq_false, if_false, ht, not_false_eq_true, if_true]
          exact ⟨_, rfl, rfl⟩
    · exact Or.inr ⟨fun h => hp h.prev, ⟨e.entryId, _⟩, rfl, if_pos hp⟩

/-- A turn that errs names its entry. -/
theorem verifyEntry_entryId {g : String} {e : EntryRecord} {b : ChainBreak}
    (h : verifyEntry digest salt g e = .error b) : b.entryId = e.entryId := by
  rcases verifyEntry_cases g e with ⟨_, hrun⟩ | ⟨_, b', hb', hrun⟩
  · rw [hrun] at h
    cases h
  · rw [hrun] at h
    cases h
    exact hb'

/-- **The verifier is the loop of its turns.** -/
theorem verifyEntries_eq_foldlM (g : String) (l : List EntryRecord) :
    verifyEntries digest salt g l = (l.foldlM (verifyEntry digest salt) g).map fun _ => () := by
  induction l generalizing g with
  | nil => rfl
  | cons e l ih =>
    rw [List.foldlM_cons, verifyEntries, verifyEntry]
    cases hd : parseDirection e.direction with
    | none => rfl
    | some dir =>
      by_cases hp : e.prevHash = g
      · by_cases ht : e.thisHash = computeHash digest g salt
            (canonicalBytes g e.entryId e.accountId dir e.amount e.asset e.createdAt)
        · simp only [hp, ne_eq, not_true_eq_false, if_false, ← ht, ih]
          rfl
        · simp only [hp, ne_eq, not_true_eq_false, if_false, ht, not_false_eq_true, if_true]
          rfl
      · simp only [ne_eq, hp, not_false_eq_true, if_true]
        rfl

/-! ## 2. Lists that are accepted -/

theorem verifyEntries_ok_loop {g : String} {l : List EntryRecord} :
    verifyEntries digest salt g l = .ok () ↔
      ∃ h, l.foldlM (verifyEntry digest salt) g = .ok h := by
  rw [verifyEntries_eq_foldlM]
  cases l.foldlM (verifyEntry digest salt) g with
  | error b => simp [Except.map]
  | ok h => simp [Except.map]

theorem verifyEntries_error_loop {g : String} {l : List EntryRecord} {b : ChainBreak} :
    verifyEntries digest salt g l = .error b ↔
      l.foldlM (verifyEntry digest salt) g = .error b := by
  rw [verifyEntries_eq_foldlM]
  cases l.foldlM (verifyEntry digest salt) g with
  | error b' => simp [Except.map]
  | ok h => simp [Except.map]

/-- **The verifier accepts exactly the lists whose entries fit behind one another.** -/
theorem verifyEntries_ok_iff_fits (g : String) (l : List EntryRecord) :
    verifyEntries digest salt g l = .ok () ↔
      ∀ i e, l[i]? = some e → FitsBehind digest salt (entriesHead g (l.take i)) e := by
  rw [verifyEntries_ok_loop]
  induction l generalizing g with
  | nil =>
    refine iff_of_true ⟨g, rfl⟩ fun i e he => ?_
    cases he
  | cons x l ih =>
    have hturn : (∃ h, (x :: l).foldlM (verifyEntry digest salt) g = .ok h) ↔
        FitsBehind digest salt g x ∧
          ∃ h, l.foldlM (verifyEntry digest salt) x.thisHash = .ok h := by
      rw [List.foldlM_cons]
      rcases verifyEntry_cases g x with ⟨hfits, hrun⟩ | ⟨hnot, b, _, hrun⟩
      · rw [hrun]
        exact (and_iff_right hfits).symm
      · rw [hrun]
        refine iff_of_false (fun h => ?_) fun h => hnot h.1
        obtain ⟨_, herr⟩ := h
        cases herr
    rw [hturn, ih]
    constructor
    · rintro ⟨hx, hl⟩ i e he
      cases i with
      | zero =>
        cases he
        exact hx
      | succ i => exact hl i e he
    · intro h
      exact ⟨h 0 x rfl, fun i e he => h (i + 1) e he⟩

theorem hashBefore_eq {l : List EntryRecord} {i : Nat} {e : EntryRecord} (h : l[i]? = some e) :
    hashBefore l i = entriesHead genesisHash (l.take i) := by
  obtain ⟨hi, _⟩ := List.getElem?_eq_some_iff.mp h
  cases i with
  | zero => rfl
  | succ i =>
    have hlt : i < l.length := by omega
    have hlast : (l.take (i + 1)).getLast? = l[i]? := by
      rw [List.getLast?_eq_getElem?, List.length_take, Nat.min_eq_left hlt,
        List.getElem?_take_of_lt (by omega), Nat.succ_sub_one]
    rw [entriesHead, headFrom_eq_getLast, hlast]
    rfl

end Turn

/-! ## 3. The first break -/

/-- The ledger with its first `n` entries only. -/
def LedgerState.upTo (state : LedgerState) (n : Nat) : LedgerState :=
  { state with entries := state.entries.take n }

section Break

variable {digest : ByteArray → String} {salt : String} {state : LedgerState}

/-- The verifier stops at the position where the entries before it are accepted and the turn of its
    entry errs. -/
theorem verifyChain_error_at {b : ChainBreak} :
    verifyChain digest salt state = .error b ↔
      ∃ i e g, state.entries[i]? = some e ∧
        (state.entries.take i).foldlM (verifyEntry digest salt) genesisHash = .ok g ∧
        verifyEntry digest salt g e = .error b :=
  verifyEntries_error_loop.trans foldlM_error_iff

/-- A turn that errs is all the verifier needs: every list with the same entries up to its position
    is answered with its error. -/
theorem verifyChain_error_of_turn {i : Nat} {e : EntryRecord} {g : String} {b : ChainBreak}
    (he : state.entries[i]? = some e)
    (hg : (state.entries.take i).foldlM (verifyEntry digest salt) genesisHash = .ok g)
    (hturn : verifyEntry digest salt g e = .error b) {longer : LedgerState}
    (hsame : longer.entries.take (i + 1) = state.entries.take (i + 1)) :
    verifyChain digest salt longer = .error b := by
  refine verifyChain_error_at.mpr ⟨i, e, g, ?_, ?_, hturn⟩
  · rw [← List.getElem?_take_of_lt (Nat.lt_succ_self i), hsame,
      List.getElem?_take_of_lt (Nat.lt_succ_self i), he]
  · have htake := congrArg (List.take i) hsame
    rw [List.take_take, List.take_take, Nat.min_eq_left (Nat.le_succ i)] at htake
    rw [htake, hg]

/-- Where the entries before a position are accepted and those up to it are not, the turn of its
    entry errs. -/
theorem turn_errs {i : Nat} {e : EntryRecord} (he : state.entries[i]? = some e)
    (hok : verifyChain digest salt (state.upTo i) = .ok ())
    (hnot : verifyChain digest salt (state.upTo (i + 1)) ≠ .ok ()) :
    ∃ g b, (state.entries.take i).foldlM (verifyEntry digest salt) genesisHash = .ok g ∧
      verifyEntry digest salt g e = .error b := by
  obtain ⟨g, hg⟩ : ∃ g,
      (state.entries.take i).foldlM (verifyEntry digest salt) genesisHash = .ok g :=
    verifyEntries_ok_loop.mp hok
  refine ⟨g, ?_⟩
  rcases verifyEntry_cases g e with ⟨_, hrun⟩ | ⟨_, b, _, hrun⟩
  · refine absurd (verifyEntries_ok_loop.mpr ⟨e.thisHash, ?_⟩) hnot
    show (state.entries.take (i + 1)).foldlM (verifyEntry digest salt) genesisHash = _
    rw [List.take_add_one, he, List.foldlM_append, hg]
    show [e].foldlM (verifyEntry digest salt) g = _
    rw [List.foldlM_cons, hrun]
    rfl
  · exact ⟨b, hg, hrun⟩

end Break

/-- **`verify_chain` accepts exactly the well-linked lists and names the first break**, for every
    digest, salt and list of entries: it accepts when every entry fits behind the one before it; it
    errs with an entry id exactly when an entry of that id stands at a position before which the
    list is accepted and up to which it is not; and every list with the same entries up to that
    position is answered with the same error. -/
theorem verify_chain_localises (digest : ByteArray → String) (salt : String)
    (state : LedgerState) :
    (verifyChain digest salt state = .ok () ↔
      ∀ i e, state.entries[i]? = some e →
        FitsBehind digest salt (hashBefore state.entries i) e) ∧
    (∀ x, (∃ b, verifyChain digest salt state = .error b ∧ b.entryId = x) ↔
      ∃ i e, state.entries[i]? = some e ∧ e.entryId = x ∧
        verifyChain digest salt (state.upTo i) = .ok () ∧
        verifyChain digest salt (state.upTo (i + 1)) ≠ .ok ()) ∧
    ∀ i, i < state.entries.length → verifyChain digest salt (state.upTo i) = .ok () →
      verifyChain digest salt (state.upTo (i + 1)) ≠ .ok () →
      ∃ b, verifyChain digest salt state = .error b ∧ ∀ longer : LedgerState,
        longer.entries.take (i + 1) = state.entries.take (i + 1) →
        verifyChain digest salt longer = .error b := by
  refine ⟨?_, fun x => ⟨?_, ?_⟩, fun i hi hok hnot => ?_⟩
  · rw [verifyChain, verifyEntries_ok_iff_fits]
    refine forall_congr' fun i => forall_congr' fun e => imp_congr_right fun he => ?_
    rw [hashBefore_eq he]
  · rintro ⟨b, herr, rfl⟩
    obtain ⟨i, e, g, he, hg, hturn⟩ := verifyChain_error_at.mp herr
    have hid : b.entryId = e.entryId := verifyEntry_entryId hturn
    refine ⟨i, e, he, hid.symm, verifyEntries_ok_loop.mpr ⟨g, hg⟩, fun hok => ?_⟩
    -- the turn of the entry errs in the list that ends with it as well
    have herr' : verifyChain digest salt (state.upTo (i + 1)) = .error b :=
      verifyChain_error_of_turn he hg hturn (List.take_take.trans (by rw [Nat.min_self]))
    rw [herr'] at hok
    cases hok
  · rintro ⟨i, e, he, rfl, hok, hnot⟩
    obtain ⟨g, b, hg, hturn⟩ := turn_errs he hok hnot
    exact ⟨b, verifyChain_error_of_turn he hg hturn rfl, verifyEntry_entryId hturn⟩
  · have he := List.getElem?_eq_getElem hi
    obtain ⟨g, b, hg, hturn⟩ := turn_errs he hok hnot
    exact ⟨b, verifyChain_error_of_turn he hg hturn rfl,
      fun longer hsame => verifyChain_error_of_turn he hg hturn hsame⟩

end LedgerAccounting
