/-
  File:      LedgerAccounting/Memory/Reversal.lean
  Subject:   Reversing postings: the request with both directions exchanged takes back what a
             posting has done, whenever it is made.

  Every check of `post` on the request looks at both directions alike, every type of the chart
  allows both, and no call takes an account away: what made the request acceptable makes its
  reversal acceptable in every later state.

  * `reversal_accepted`: a reversal under a free posting id is never refused.
  * `reversal_undoes`: its effect is the opposite one.
-/
import LedgerAccounting.Memory.Admission
import LedgerAccounting.Memory.Effect
import LedgerAccounting.Memory.Movement

namespace LedgerAccounting

open Runs

/-! ## 1. The reversal of a request -/

/-- `DEBIT` for `CREDIT` and `CREDIT` for `DEBIT`. -/
def opposite (direction : String) : String :=
  if direction = "DEBIT" then "CREDIT" else if direction = "CREDIT" then "DEBIT" else direction

def EntryInput.reversed (e : EntryInput) : EntryInput :=
  { e with direction := opposite e.direction }

/-- The request with the directions of all entries exchanged, under another posting id. -/
def PostingRequest.reversal (req : PostingRequest) (postingId : String) : PostingRequest :=
  { req with postingId := postingId, entries := req.entries.map EntryInput.reversed }

@[simp] theorem opposite_opposite (direction : String) :
    opposite (opposite direction) = direction := by
  unfold opposite
  by_cases hd : direction = "DEBIT"
  · simp [hd]
  · by_cases hc : direction = "CREDIT"
    · simp [hc]
    · simp [hd, hc]

theorem opposite_eq_iff (d d' : String) : opposite d = d' ↔ d = opposite d' := by
  constructor
  · rintro rfl
    exact (opposite_opposite d).symm
  · rintro rfl
    exact opposite_opposite d'

theorem opposite_direction {d : String} (h : d = "DEBIT" ∨ d = "CREDIT") :
    opposite d = "DEBIT" ∨ opposite d = "CREDIT" := by
  rcases h with rfl | rfl
  · exact Or.inr rfl
  · exact Or.inl rfl

/-- What the reversed entries have in one direction, the entries have in the other. -/
theorem reversed_total (entries : List EntryInput) (direction : String) (q : EntryInput → Bool)
    (hq : ∀ e, q e.reversed = q e) :
    (((entries.map EntryInput.reversed).filter fun e => e.direction == direction && q e).map
        (·.amount)).sum =
      ((entries.filter fun e => e.direction == opposite direction && q e).map (·.amount)).sum := by
  have hsel : (fun e : EntryInput => e.direction == direction && q e) ∘ EntryInput.reversed =
      fun e => e.direction == opposite direction && q e := by
    funext e
    have hdir : (opposite e.direction == direction) = (e.direction == opposite direction) := by
      rw [Bool.eq_iff_iff, beq_iff_eq, beq_iff_eq, opposite_eq_iff]
    show (opposite e.direction == direction && q e.reversed) = _
    rw [hdir, hq]
  rw [List.filter_map, List.map_map, hsel]
  rfl

theorem requestTotal_reversed (entries : List EntryInput) (direction asset : String) :
    requestTotal (entries.map EntryInput.reversed) direction asset =
      requestTotal entries (opposite direction) asset :=
  reversed_total entries direction (fun e => e.asset == asset) fun _ => rfl

theorem sideOn_reversed (entries : List EntryInput) (direction accountId asset : String) :
    sideOn (entries.map EntryInput.reversed) direction accountId asset =
      sideOn entries (opposite direction) accountId asset := by
  unfold sideOn
  simp only [Bool.and_assoc]
  exact reversed_total entries direction
    (fun e => e.accountId == accountId && selects asset e.asset) fun _ => rfl

/-- **The net amounts of the reversal are the opposite ones.** -/
theorem netOn_reversed (entries : List EntryInput) (accountId asset : String) :
    netOn (entries.map EntryInput.reversed) accountId asset = -netOn entries accountId asset := by
  unfold netOn
  rw [sideOn_reversed, sideOn_reversed]
  show (sideOn entries "CREDIT" accountId asset : Int) - sideOn entries "DEBIT" accountId asset = _
  omega

/-! ## 2. The reversal is accepted -/

theorem WellFormed.reversal {req : PostingRequest} (h : WellFormed req) (postingId : String) :
    WellFormed (req.reversal postingId) where
  size := by
    show 1 ≤ (req.entries.map EntryInput.reversed).length ∧
      (req.entries.map EntryInput.reversed).length ≤ 64
    rw [List.length_map]
    exact h.size
  entries := by
    intro e he
    obtain ⟨e, hmem, rfl⟩ := List.mem_map.mp he
    have hv := h.entries e hmem
    exact ⟨hv.asset, opposite_direction hv.direction, hv.positive, hv.bound⟩
  balanced := by
    intro asset
    show requestTotal (req.entries.map EntryInput.reversed) "DEBIT" asset =
      requestTotal (req.entries.map EntryInput.reversed) "CREDIT" asset
    rw [requestTotal_reversed, requestTotal_reversed]
    exact (h.balanced asset).symm

/-- **Every type of the chart allows both directions.** -/
theorem findType_both {typeName : String} {t : AccountType} (h : findType typeName = some t) :
    t.allowedDirections = ["DEBIT", "CREDIT"] := by
  have hall : ∀ t ∈ chart, t.allowedDirections = ["DEBIT", "CREDIT"] := by decide
  exact hall t (List.mem_of_find?_eq_some h)

section Accepted

variable {digest : ByteArray → String} {salt : String} {s s' : LedgerState}

/-- An entry that could be booked can be booked in the other direction where the accounts are
    still there. -/
theorem Bookable.reversed {e : EntryInput} (h : Bookable s e)
    (hkept : ∀ id acc, getAccount s id = some acc → getAccount s' id = some acc)
    (hd : e.direction = "DEBIT" ∨ e.direction = "CREDIT") : Bookable s' e.reversed := by
  obtain ⟨acc, t, hacc, hactive, ht, _⟩ := h
  refine ⟨acc, t, hkept _ _ hacc, hactive, ht, ?_⟩
  show opposite e.direction ∈ t.allowedDirections
  rw [findType_both ht]
  rcases opposite_direction hd with ho | ho <;> rw [ho] <;> decide

variable (digest salt) in
/-- A well-formed, bookable request under a free id is answered afresh. -/
theorem post_fresh {req : PostingRequest} (hw : WellFormed req)
    (hb : ∀ e ∈ req.entries, Bookable s e) (hfree : getPosting s req.postingId = none)
    (sup : Supply) : ∃ r, (post digest salt sup req s).1 = .ok (r, false) := by
  obtain ⟨⟨r, replayed⟩, hr⟩ := (post_isOk_iff digest salt sup req s).mpr ⟨hw, Or.inr hb⟩
  cases replayed with
  | false => exact ⟨r, hr⟩
  | true =>
    obtain ⟨_, rec, hrec⟩ := replayed_keeps hr
    rw [hfree] at hrec
    cases hrec

/-- What a fresh answer says of its request. -/
theorem fresh_bookable {sup : Supply} {req : PostingRequest} {r : PostingResponse}
    (h : (post digest salt sup req s).1 = .ok (r, false)) :
    WellFormed req ∧ ∀ e ∈ req.entries, Bookable s e := by
  obtain ⟨parsed, ha⟩ := accepts_of_fresh digest salt sup h
  have hparses := ha.valid.parses
  exact ⟨(validateRequest_isOk_iff req).mp ⟨parsed, ha.valid⟩,
    (checkAccounts_ok_iff_bookable s hparses).mp ha.accounts⟩

/-- A fresh answer has appended the record of its request. -/
theorem fresh_recorded {sup : Supply} {req : PostingRequest} {r : PostingResponse}
    (h : (post digest salt sup req s).1 = .ok (r, false)) :
    ∃ rec, getPosting (post digest salt sup req s).2 req.postingId = some rec ∧
      req.BookedAs rec.entries ∧
      (post digest salt sup req s).2.entries = s.entries ++ rec.entries := by
  obtain ⟨parsed, ha⟩ := accepts_of_fresh digest salt sup h
  rw [post_accepted digest salt sup ha]
  exact ⟨_, record_lookup_self s sup req _, createEntries_bookedAs sup ha, rfl⟩

/-- The net amount of a fresh posting on an account it has not found is 0. -/
theorem fresh_absent {sup : Supply} {req : PostingRequest} {r : PostingResponse}
    (h : (post digest salt sup req s).1 = .ok (r, false)) {id : String}
    (hid : getAccount s id = none) (asset : String) : netOn req.entries id asset = 0 := by
  refine netOn_absent (fun e he heq => ?_) asset
  obtain ⟨acc, _, hacc, _⟩ := (fresh_bookable h).2 e he
  rw [heq, hid] at hacc
  cases hacc

/-- **A reversal under a free posting id is accepted** wherever the accounts of the request are
    still there. -/
theorem reversal_accepted {sup : Supply} {req : PostingRequest} {r : PostingResponse}
    (h : (post digest salt sup req s).1 = .ok (r, false))
    (hkept : ∀ id acc, getAccount s id = some acc → getAccount s' id = some acc)
    {postingId : String} (hfree : getPosting s' postingId = none) (sup' : Supply) :
    ∃ r', (post digest salt sup' (req.reversal postingId) s').1 = .ok (r', false) := by
  obtain ⟨hw, hb⟩ := fresh_bookable h
  refine post_fresh digest salt (hw.reversal postingId) (fun e he => ?_) hfree sup'
  obtain ⟨e, hmem, rfl⟩ := List.mem_map.mp he
  exact (hb e hmem).reversed hkept (hw.entries e hmem).direction

/-! ## 3. Sums over accounts that have become more -/

/-- A sum over the custodial accounts, of amounts that only accounts of `s` have, is the same in a
    state that has kept the accounts of `s`. -/
theorem custodial_sum_kept {d : String → Int}
    (hkept : ∀ id acc, getAccount s id = some acc → getAccount s' id = some acc)
    (hd : ∀ id, getAccount s id = none → d id = 0) :
    ((accountsOf s' Account.custodial).map d).sum =
      ((accountsOf s Account.custodial).map d).sum := by
  rw [← List.sum_toFinset _ (accountsOf_nodup s' _), ← List.sum_toFinset _ (accountsOf_nodup s _)]
  refine (Finset.sum_subset (fun id hid => ?_) fun id hid hnot => ?_).symm
  · obtain ⟨acc, hacc, hk⟩ := (mem_accountsOf s _ id).mp (List.mem_toFinset.mp hid)
    exact List.mem_toFinset.mpr ((mem_accountsOf s' _ id).mpr ⟨acc, hkept id acc hacc, hk⟩)
  · -- an account the first state has is of the same kind in both
    refine hd id ?_
    cases hacc : getAccount s id with
    | none => rfl
    | some acc =>
      obtain ⟨acc', hacc', hk⟩ := (mem_accountsOf s' _ id).mp (List.mem_toFinset.mp hid)
      have hsame : some acc = some acc' := (hkept id acc hacc).symm.trans hacc'
      cases hsame
      exact absurd (List.mem_toFinset.mpr ((mem_accountsOf s _ id).mpr ⟨acc, hacc, hk⟩)) hnot

end Accepted

theorem sum_map_neg {α : Type*} (l : List α) (f : α → Int) :
    (l.map fun a => -f a).sum = -(l.map f).sum := by
  rw [List.sum_neg, List.map_map]
  rfl

/-! ## 4. Undoing a posting -/

/-- **A reversal undoes its posting**: after every run that ends with a posting answered afresh and
    after every further run, the reversal of its request under an id that is still free is accepted;
    what it does to every balance and to the custodial sum is the opposite of what the posting did;
    and the entries of the posting stay where they are. -/
theorem reversal_undoes (digest : ByteArray → String) (salt : String) (calls : List Call)
    (sup : Supply) (req : PostingRequest) (r : PostingResponse)
    (h : (post digest salt sup req (runNew digest salt calls)).1 = .ok (r, false))
    (further : List Call) (postingId : String)
    (hfree : getPosting (runFrom digest salt further
      (post digest salt sup req (runNew digest salt calls)).2) postingId = none) (sup' : Supply) :
    let before := runNew digest salt calls
    let posted := (post digest salt sup req before).2
    let later := runFrom digest salt further posted
    let undone := (post digest salt sup' (req.reversal postingId) later).2
    (∃ r', (post digest salt sup' (req.reversal postingId) later).1 = .ok (r', false)) ∧
    (∀ accountId asset,
      balance posted accountId asset =
        (balance before accountId asset).map (· + netOn req.entries accountId asset) ∧
      balance undone accountId asset =
        (balance later accountId asset).map (· - netOn req.entries accountId asset)) ∧
    (∀ asset, (userCustodialSum posted asset - userCustodialSum before asset) +
      (userCustodialSum undone asset - userCustodialSum later asset) = 0) ∧
    ∃ rec, req.BookedAs rec.entries ∧ posted.entries = before.entries ++ rec.entries ∧
      posted.entries <+: undone.entries ∧ getPosting undone req.postingId = some rec := by
  intro before posted later undone
  obtain ⟨hbalance, haccounts, _⟩ := fresh_effect h
  have hkept : ∀ id acc, getAccount before id = some acc → getAccount later id = some acc := by
    intro id acc hacc
    refine runFrom_account further ?_
    rw [getAccount, show posted.accounts = before.accounts from haccounts]
    exact hacc
  obtain ⟨r', hr'⟩ := reversal_accepted h hkept hfree sup'
  obtain ⟨hbalance', haccounts', _⟩ := fresh_effect hr'
  have hundone : ∀ accountId asset, computeBalance undone accountId asset =
      computeBalance later accountId asset + -netOn req.entries accountId asset := by
    intro accountId asset
    rw [← netOn_reversed]
    exact hbalance' accountId asset
  have hrun : undone =
      runFrom digest salt (further ++ [.post (req.reversal postingId) sup']) posted := by
    rw [runFrom, run_concat]
    rfl
  refine ⟨⟨r', hr'⟩, fun accountId asset => ⟨balance_changed haccounts (hbalance accountId asset),
    balance_changed haccounts' (hundone accountId asset)⟩, fun asset => ?_, ?_⟩
  · have hsum : userCustodialSum posted asset = userCustodialSum before asset +
        ((accountsOf before Account.custodial).map fun a => netOn req.entries a asset).sum :=
      userCustodialSum_changed haccounts fun a => hbalance a asset
    have hsum' : userCustodialSum undone asset = userCustodialSum later asset +
        ((accountsOf later Account.custodial).map fun a => -netOn req.entries a asset).sum :=
      userCustodialSum_changed haccounts' fun a => hundone a asset
    rw [custodial_sum_kept hkept fun id hid => by rw [fresh_absent h hid, neg_zero],
      sum_map_neg] at hsum'
    omega
  · obtain ⟨rec, hrec, hbooked, hentries⟩ := fresh_recorded h
    rw [hrun]
    exact ⟨rec, hbooked, hentries, runFrom_entries _ posted, runFrom_posting _ hrec⟩

/-- The sample posting, reversed after a snapshot. -/
theorem reversal_undoes_sample :
    let before := runNew sampleDigest sampleSalt sampleAccounts
    let posted := (post sampleDigest sampleSalt sampleSupply sampleRequest before).2
    let later := runFrom sampleDigest sampleSalt [.writeSnapshots sampleSupply] posted
    let undone :=
      (post sampleDigest sampleSalt sampleSupply (sampleRequest.reversal "rev1") later).2
    (∃ r', (post sampleDigest sampleSalt sampleSupply (sampleRequest.reversal "rev1") later).1 =
      .ok (r', false)) ∧
    (∀ accountId asset,
      balance posted accountId asset =
        (balance before accountId asset).map (· + netOn sampleRequest.entries accountId asset) ∧
      balance undone accountId asset =
        (balance later accountId asset).map (· - netOn sampleRequest.entries accountId asset)) ∧
    (∀ asset, (userCustodialSum posted asset - userCustodialSum before asset) +
      (userCustodialSum undone asset - userCustodialSum later asset) = 0) ∧
    ∃ rec, sampleRequest.BookedAs rec.entries ∧ posted.entries = before.entries ++ rec.entries ∧
      posted.entries <+: undone.entries ∧ getPosting undone sampleRequest.postingId = some rec :=
  reversal_undoes sampleDigest sampleSalt sampleAccounts sampleSupply sampleRequest sampleResponse
    sample_post [.writeSnapshots sampleSupply] "rev1" (by decide +kernel) sampleSupply

end LedgerAccounting
