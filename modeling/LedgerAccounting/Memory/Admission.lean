/-
  File:      LedgerAccounting/Memory/Admission.lean
  Subject:   Which requests `post` accepts on the in-memory store, and which amounts it refuses.

  The checks stand in two functions and five loops. Each is read back in the words of the request
  (`ValidEntry`, `requestTotal`, `Bookable`), so that what `post` accepts is a condition on the
  request and on the accounts it names.

  * `post_accepts_iff`: a call is answered exactly when its request is valid, and otherwise the
    state is kept.
  * `amount_bound_iff`: when the bound of the asset is the bound that decides.
-/
import LedgerAccounting.Run

namespace LedgerAccounting

open Runs

/-! ## 1. Valid requests in the words of the request -/

/-- The total of the entries in one direction and one asset. -/
def requestTotal (entries : List EntryInput) (direction asset : String) : Nat :=
  ((entries.filter fun e => e.direction == direction && e.asset == asset).map (·.amount)).sum

structure ValidEntry (e : EntryInput) : Prop where
  asset : (findAsset e.asset).isSome
  direction : e.direction = "DEBIT" ∨ e.direction = "CREDIT"
  positive : 1 ≤ e.amount
  bound : e.amount ≤ min maxAmount (maxAmountFor e.asset)

/-- The account of the entry exists, is active, and has a type of the chart that allows the
    direction. -/
def Bookable (state : LedgerState) (e : EntryInput) : Prop :=
  ∃ acc t, getAccount state e.accountId = some acc ∧ acc.status = "ACTIVE" ∧
    findType acc.typeName = some t ∧ e.direction ∈ t.allowedDirections

structure WellFormed (req : PostingRequest) : Prop where
  size : 1 ≤ req.entries.length ∧ req.entries.length ≤ 64
  entries : ∀ e ∈ req.entries, ValidEntry e
  balanced : ∀ asset,
    requestTotal req.entries "DEBIT" asset = requestTotal req.entries "CREDIT" asset

/-! ## 2. The checks, read back -/

theorem maxAmountFor_some {asset : String} {spec : AssetSpec} (h : findAsset asset = some spec) :
    maxAmountFor asset = spec.maxAmount := by
  unfold maxAmountFor
  rw [h]
  rfl

theorem checkAmount_ok_iff_bounds (e : EntryInput) :
    checkAmount e = .ok () ↔
      (findAsset e.asset).isSome ∧ 1 ≤ e.amount ∧
        e.amount ≤ min maxAmount (maxAmountFor e.asset) := by
  rw [checkAmount_ok_iff, Option.isSome_iff_exists]
  constructor
  · rintro ⟨spec, hspec, hpos, hle, hmax⟩
    rw [maxAmountFor_some hspec]
    exact ⟨⟨spec, hspec⟩, hpos, le_min hmax hle⟩
  · rintro ⟨⟨spec, hspec⟩, hpos, hle⟩
    rw [maxAmountFor_some hspec] at hle
    exact ⟨spec, hspec, hpos, hle.trans (min_le_right _ _), hle.trans (min_le_left _ _)⟩

theorem parseEntry_isOk_iff (e : EntryInput) :
    (∃ p, parseEntry e = .ok p) ↔ e.direction = "DEBIT" ∨ e.direction = "CREDIT" := by
  constructor
  · rintro ⟨p, hp⟩
    obtain ⟨hd, _⟩ := (parseEntry_ok_iff e p).mp hp
    rw [hd]
    cases p.dir
    · exact Or.inl rfl
    · exact Or.inr rfl
  · rintro (hd | hd)
    · exact ⟨⟨e.accountId, .debit, e.amount, e.asset⟩,
        (parseEntry_ok_iff e _).mpr ⟨hd, rfl, rfl, rfl⟩⟩
    · exact ⟨⟨e.accountId, .credit, e.amount, e.asset⟩,
        (parseEntry_ok_iff e _).mpr ⟨hd, rfl, rfl, rfl⟩⟩

/-- The entry adds its amount to the side of its direction. -/
theorem requestTotal_cons (e : EntryInput) (l : List EntryInput) (direction asset : String) :
    requestTotal (e :: l) direction asset =
      (if e.direction = direction ∧ e.asset = asset then e.amount else 0) +
        requestTotal l direction asset := by
  unfold requestTotal
  by_cases h : e.direction = direction ∧ e.asset = asset
  · rw [List.filter_cons_of_pos (by simpa using h), if_pos h]
    rfl
  · rw [List.filter_cons_of_neg (by simpa using h), if_neg h, Nat.zero_add]

/-- **The totals of the loop are the totals of the request.** -/
theorem foldl_addSide {entries : List EntryInput} {parsed : List ParsedEntry}
    (h : List.Forall₂ (fun e p => parseEntry e = .ok p) entries parsed) (asset : String)
    (s : Int × Int) :
    (parsed.filter fun p => decide (p.asset = asset)).foldl addSide s =
      (s.1 + requestTotal entries "DEBIT" asset, s.2 + requestTotal entries "CREDIT" asset) := by
  induction h generalizing s with
  | nil => simp [requestTotal]
  | @cons e p entries parsed hparse _ ih =>
    obtain ⟨hd, _, hn, ha⟩ := (parseEntry_ok_iff e p).mp hparse
    rw [requestTotal_cons, requestTotal_cons, hd, ← ha, ← hn]
    by_cases hasset : p.asset = asset
    · rw [List.filter_cons_of_pos (by simpa using hasset), List.foldl_cons, ih]
      unfold addSide
      cases p.dir <;> simp [hasset, Direction.text, add_assoc]
    · rw [List.filter_cons_of_neg (by simpa using hasset), ih]
      simp [hasset]

/-- The first half of `post` passes exactly on the well-formed requests. -/
theorem validateRequest_isOk_iff (req : PostingRequest) :
    (∃ parsed, ValidRequest req parsed) ↔ WellFormed req := by
  constructor
  · rintro ⟨parsed, h⟩
    refine ⟨⟨List.length_pos_iff.mpr h.nonempty, h.size⟩, fun e he => ?_, fun asset => ?_⟩
    · obtain ⟨hasset, hpos, hle⟩ := (checkAmount_ok_iff_bounds e).mp (h.amounts e he)
      obtain ⟨p, _, hp⟩ := forall₂_mem_left h.parses he
      exact ⟨hasset, (parseEntry_isOk_iff e).mp ⟨p, hp⟩, hpos, hle⟩
    · have hsides := (checkSides_ok_iff parsed).mp h.sides asset
      rw [perAsset_lookup, foldl_addSide h.parses] at hsides
      simpa using hsides
  · intro h
    obtain ⟨parsed, hparses⟩ : ∃ parsed,
        List.Forall₂ (fun e p => parseEntry e = .ok p) req.entries parsed :=
      exists_forall₂ fun e he => (parseEntry_isOk_iff e).mpr (h.entries e he).direction
    refine ⟨parsed, List.length_pos_iff.mp h.size.1, h.size.2, fun e he => ?_, hparses, ?_⟩
    · have hv := h.entries e he
      exact (checkAmount_ok_iff_bounds e).mpr ⟨hv.asset, hv.positive, hv.bound⟩
    · rw [checkSides_ok_iff]
      intro asset
      rw [perAsset_lookup, foldl_addSide hparses, h.balanced asset]

/-- The account checks pass exactly when every entry of the request is bookable. -/
theorem checkAccounts_ok_iff_bookable (state : LedgerState) {entries : List EntryInput}
    {parsed : List ParsedEntry}
    (h : List.Forall₂ (fun e p => parseEntry e = .ok p) entries parsed) :
    checkAccounts state parsed = .ok () ↔ ∀ e ∈ entries, Bookable state e := by
  have hone : ∀ e p, parseEntry e = .ok p →
      ((∃ acc t, state.accounts.lookup p.accountId = some acc ∧ acc.status = "ACTIVE" ∧
        findType acc.typeName = some t ∧ directionAllowed t p.dir = true) ↔ Bookable state e) := by
    intro e p hparse
    obtain ⟨hd, hacc, _, _⟩ := (parseEntry_ok_iff e p).mp hparse
    unfold Bookable getAccount directionAllowed
    rw [hd, hacc]
    simp only [List.contains_iff_mem]
  rw [checkAccounts_ok_iff]
  constructor
  · intro hall e he
    obtain ⟨p, hp, hparse⟩ := forall₂_mem_left h he
    exact (hone e p hparse).mp (hall p hp)
  · intro hall p hp
    obtain ⟨e, he, hparse⟩ := forall₂_mem_right h hp
    exact (hone e p hparse).mpr (hall e he)

/-! ## 3. Accepted requests -/

section Post

variable (digest : ByteArray → String) (salt : String)

/-- A call of `post` is answered exactly on a well-formed request that is a replay or bookable. -/
theorem post_isOk_iff (sup : Supply) (req : PostingRequest) (state : LedgerState) :
    (∃ r, (post digest salt sup req state).1 = .ok r) ↔
      WellFormed req ∧
        ((getPosting state req.postingId).isSome ∨ ∀ e ∈ req.entries, Bookable state e) := by
  rw [← validateRequest_isOk_iff]
  simp only [← validateRequest_ok_iff sup]
  cases hv : validateRequest sup req with
  | error e =>
    have herr : (post digest salt sup req state).1 = .error e := by simp only [post, hv]
    rw [herr]
    simp
  | ok parsed =>
    have hvalid := (validateRequest_ok_iff sup req parsed).mp hv
    cases hr : state.postings.lookup req.postingId with
    | some rec =>
      rw [post_replayed digest salt sup hvalid hr]
      simp [getPosting, hr]
    | none =>
      rw [← checkAccounts_ok_iff_bookable state hvalid.parses]
      cases ha : checkAccounts state parsed with
      | error e =>
        have herr : (post digest salt sup req state).1 = .error e := by
          simp only [post, hv, postViaMemory, hr, ha]
        rw [herr]
        simp [getPosting, hr]
      | ok u =>
        rw [post_accepted digest salt sup ⟨hvalid, hr, ha⟩]
        simp

/-- **A call that errs keeps the state.** -/
theorem post_error_keeps {sup : Supply} {req : PostingRequest} {state : LedgerState}
    {err : PostError} (h : (post digest salt sup req state).1 = .error err) :
    (post digest salt sup req state).2 = state := by
  rcases post_cases digest salt sup req state with ⟨e, he⟩ | ⟨_, _, _, _, hrec⟩ | ⟨_, ha⟩
  · rw [he]
  · rw [hrec]
  · rw [post_accepted digest salt sup ha] at h
    cases h

/-- **`post` accepts exactly the valid requests and rejects atomically**, after every run. -/
theorem post_accepts_iff (calls : List Call) (sup : Supply) (req : PostingRequest) :
    let state := runNew digest salt calls
    ((∃ r, (post digest salt sup req state).1 = .ok r) ↔
      WellFormed req ∧
        ((getPosting state req.postingId).isSome ∨ ∀ e ∈ req.entries, Bookable state e)) ∧
    ∀ err, (post digest salt sup req state).1 = .error err →
      (post digest salt sup req state).2 = state := by
  intro state
  exact ⟨post_isOk_iff digest salt sup req state, fun _ h => post_error_keeps digest salt h⟩

/-! ## 4. Refused amounts -/

/-- The call errs, and its error is the one of the loop over the amounts. -/
def RejectsForAmount (sup : Supply) (req : PostingRequest) (state : LedgerState) : Prop :=
  ∃ err, (post digest salt sup req state).1 = .error err ∧
    req.entries.forM checkAmount = .error err

/-- A fresh balanced request that has nothing against it but, perhaps, its amounts. -/
structure OtherwiseValid (state : LedgerState) (req : PostingRequest) : Prop where
  size : 1 ≤ req.entries.length ∧ req.entries.length ≤ 64
  assets : ∀ e ∈ req.entries, (findAsset e.asset).isSome
  directions : ∀ e ∈ req.entries, e.direction = "DEBIT" ∨ e.direction = "CREDIT"
  balanced : ∀ asset,
    requestTotal req.entries "DEBIT" asset = requestTotal req.entries "CREDIT" asset
  fresh : getPosting state req.postingId = none
  accounts : ∀ e ∈ req.entries, Bookable state e

/-- The amount of some entry is 0 or above the bound of its asset. -/
def OutOfAssetBounds (req : PostingRequest) : Prop :=
  ∃ e ∈ req.entries, e.amount = 0 ∨ maxAmountFor e.asset < e.amount

variable {state : LedgerState} {req : PostingRequest}

/-- The loop over the amounts fails exactly when an amount is 0 or above one of its two bounds. -/
theorem OtherwiseValid.amounts (h : OtherwiseValid state req) :
    (∃ err, req.entries.forM checkAmount = .error err) ↔
      OutOfAssetBounds req ∨ ∃ e ∈ req.entries, maxAmount < e.amount := by
  have hok : req.entries.forM checkAmount = .ok () ↔
      ¬ (OutOfAssetBounds req ∨ ∃ e ∈ req.entries, maxAmount < e.amount) := by
    rw [forM_ok_iff]
    simp only [checkAmount_ok_iff_bounds, OutOfAssetBounds, not_or, not_exists, not_and, not_lt,
      le_min_iff]
    constructor
    · intro hall
      exact ⟨fun e he => ⟨Nat.one_le_iff_ne_zero.mp (hall e he).2.1, (hall e he).2.2.2⟩,
        fun e he => (hall e he).2.2.1⟩
    · rintro ⟨hasset, hmax⟩ e he
      exact ⟨h.assets e he, Nat.one_le_iff_ne_zero.mpr (hasset e he).1, hmax e he,
        (hasset e he).2⟩
  cases hf : req.entries.forM checkAmount with
  | error err =>
    rw [hf] at hok
    have hnot := mt hok.mpr (by simp)
    exact iff_of_true ⟨err, rfl⟩ (not_not.mp hnot)
  | ok u =>
    rw [hf] at hok
    exact iff_of_false (by simp) (hok.mp rfl)

/-- An otherwise valid request is refused for its amounts or not at all. -/
theorem OtherwiseValid.rejects_iff (h : OtherwiseValid state req) (sup : Supply) :
    RejectsForAmount digest salt sup req state ↔
      ∃ err, req.entries.forM checkAmount = .error err := by
  constructor
  · rintro ⟨err, _, herr⟩
    exact ⟨err, herr⟩
  · rintro ⟨err, herr⟩
    refine ⟨err, ?_, herr⟩
    have hsize : checkSize req = .ok () :=
      (checkSize_ok_iff req).mpr ⟨List.length_pos_iff.mp h.size.1, h.size.2⟩
    have hv : validateRequest sup req = .error err := by
      unfold validateRequest
      rw [hsize, herr]
      rfl
    simp only [post, hv]

/-- **An otherwise valid request is refused exactly when an amount is out of one of its bounds.** -/
theorem OtherwiseValid.post_error_iff (h : OtherwiseValid state req) (sup : Supply) :
    (∃ err, (post digest salt sup req state).1 = .error err) ↔
      RejectsForAmount digest salt sup req state := by
  constructor
  · rintro ⟨err, herr⟩
    rw [h.rejects_iff digest salt sup, h.amounts]
    by_contra hin
    simp only [OutOfAssetBounds, not_or, not_exists, not_and, not_lt] at hin
    have hwell : WellFormed req := by
      refine ⟨h.size, fun e he => ⟨h.assets e he, h.directions e he, ?_, ?_⟩, h.balanced⟩
      · exact Nat.one_le_iff_ne_zero.mpr (hin.1 e he).1
      · exact le_min (hin.2 e he) (hin.1 e he).2
    obtain ⟨r, hr⟩ := (post_isOk_iff digest salt sup req state).mpr ⟨hwell, Or.inr h.accounts⟩
    rw [hr] at herr
    cases herr
  · rintro ⟨err, herr, _⟩
    exact ⟨err, herr⟩

/-- **When the bound of the asset decides**: after every run, an otherwise valid request is
    refused for its amounts or not at all; and that it is refused exactly when one of them is out
    of the bounds of its asset holds if and only if one is, or no entry exceeds the global
    `maxAmount`. -/
theorem amount_bound_iff (calls : List Call) (sup : Supply) (req : PostingRequest)
    (h : OtherwiseValid (runNew digest salt calls) req) :
    let state := runNew digest salt calls
    ((∃ err, (post digest salt sup req state).1 = .error err) ↔
      RejectsForAmount digest salt sup req state) ∧
    ((RejectsForAmount digest salt sup req state ↔ OutOfAssetBounds req) ↔
      OutOfAssetBounds req ∨ ∀ e ∈ req.entries, e.amount ≤ maxAmount) := by
  intro state
  refine ⟨h.post_error_iff digest salt sup, ?_⟩
  rw [h.rejects_iff digest salt sup, h.amounts]
  by_cases hout : OutOfAssetBounds req
  · simp [hout]
  · simp only [hout, false_or, iff_false, not_exists, not_and, not_lt]

end Post

/-! A transfer of just over 10000 BTC between two users: far below the bound of the asset, and one
above the global one. -/

def twoUsers : List Call :=
  [ .createAccount ⟨some "uc", "user_custodial", "BOTH", "user_custodial-uc", none⟩ sampleSupply,
    .createAccount ⟨some "ud", "user_custodial", "BOTH", "user_custodial-ud", none⟩ sampleSupply ]

theorem twoUsers_bookable (digest : ByteArray → String) (salt : String) {e : EntryInput}
    (hid : e.accountId = "uc" ∨ e.accountId = "ud") (hdir : e.direction ∈ ["DEBIT", "CREDIT"]) :
    Bookable (runNew digest salt twoUsers) e := by
  rcases hid with hid | hid
  · exact ⟨_, _, by rw [hid]; rfl, rfl, rfl, hdir⟩
  · exact ⟨_, _, by rw [hid]; rfl, rfl, rfl, hdir⟩

def largeTransfer : PostingRequest where
  postingId := "btc1"
  entries := [⟨"uc", "DEBIT", 1000000000001, "BTC"⟩, ⟨"ud", "CREDIT", 1000000000001, "BTC"⟩]
  memo := none
  refTxId := none

theorem largeTransfer_otherwiseValid :
    OtherwiseValid (runNew sampleDigest sampleSalt twoUsers) largeTransfer where
  size := by decide
  assets := by decide
  directions := by decide
  balanced asset := by
    by_cases h : "BTC" = asset <;> simp [requestTotal, largeTransfer, h]
  fresh := rfl
  accounts := by
    intro e he
    have hid : e.accountId = "uc" ∨ e.accountId = "ud" := by revert e; decide
    have hdir : e.direction ∈ ["DEBIT", "CREDIT"] := by revert e; decide
    exact twoUsers_bookable sampleDigest sampleSalt hid hdir

/-- The transfer is refused for its amount, which is within the bounds of the asset. -/
theorem asset_bound_not_enforced :
    OtherwiseValid (runNew sampleDigest sampleSalt twoUsers) largeTransfer ∧
      RejectsForAmount sampleDigest sampleSalt sampleSupply largeTransfer
        (runNew sampleDigest sampleSalt twoUsers) ∧
      ¬ OutOfAssetBounds largeTransfer := by
  refine ⟨largeTransfer_otherwiseValid, ⟨_, ?_, rfl⟩, ?_⟩
  · rfl
  · unfold OutOfAssetBounds
    decide

theorem amount_bound_iff_sample :
    let state := runNew sampleDigest sampleSalt twoUsers
    ((∃ err, (post sampleDigest sampleSalt sampleSupply largeTransfer state).1 = .error err) ↔
      RejectsForAmount sampleDigest sampleSalt sampleSupply largeTransfer state) ∧
    ((RejectsForAmount sampleDigest sampleSalt sampleSupply largeTransfer state ↔
        OutOfAssetBounds largeTransfer) ↔
      OutOfAssetBounds largeTransfer ∨ ∀ e ∈ largeTransfer.entries, e.amount ≤ maxAmount) :=
  amount_bound_iff sampleDigest sampleSalt twoUsers sampleSupply largeTransfer
    largeTransfer_otherwiseValid

end LedgerAccounting
