/-
  File:      LedgerAccounting/Memory/OrderIndependence.lean
  Subject:   Independent postings commute: in which order fresh posting ids are posted decides
             hashes, identifiers and sequence numbers, and nothing else.

  What `post` accepts of a fresh request depends on the accounts only (`movement`), and no posting
  changes the accounts. So a list of postings adds the movements of its accepted requests to the
  books (`PostRun`), and a sum does not depend on the order.
-/
import LedgerAccounting.Memory.AppendOnly
import LedgerAccounting.Memory.TrialBalance

namespace LedgerAccounting

open Runs

/-! ## 1. What a fresh request books -/

theorem still_clock : ∀ _ : Nat, 0 < 2 ^ 63 := fun _ => Nat.two_pow_pos 63

theorem still_visit : ∀ l : List (Sigma fun _ : String => Int × Int), l.Perm l := List.Perm.refl

/-- A supply that stands still. -/
def Supply.still : Supply where
  clock _ := 0
  uuid _ := ""
  visit l := l
  clock_lt := still_clock
  visit_perm := still_visit

/-- The parsed entries a request with a fresh id books in `state`, if it is accepted; whether it is
    does not depend on the supply. -/
def movement (state : LedgerState) (req : PostingRequest) : Option (List ParsedEntry) :=
  match validateRequest .still req with
  | .error _ => none
  | .ok parsed =>
    match checkAccounts state parsed with
    | .error _ => none
    | .ok () => some parsed

theorem movement_eq_some_iff {state : LedgerState} {req : PostingRequest}
    {parsed : List ParsedEntry} :
    movement state req = some parsed ↔
      ValidRequest req parsed ∧ checkAccounts state parsed = .ok () := by
  rw [← validateRequest_ok_iff .still]
  unfold movement
  cases hv : validateRequest .still req with
  | error e => simp
  | ok parsed' =>
    cases ha : checkAccounts state parsed' with
    | error e =>
      simp only [ha, reduceCtorEq, Except.ok.injEq, false_iff]
      intro h
      obtain ⟨rfl, hok⟩ := h
      rw [ha] at hok
      cases hok
    | ok u =>
      simp only [ha, Option.some.injEq, Except.ok.injEq]
      constructor
      · intro h
        exact ⟨h, h ▸ ha⟩
      · intro h
        exact h.1

/-- **What is accepted of a fresh request depends on the accounts only.** -/
theorem movement_congr {s s' : LedgerState} (h : s'.accounts = s.accounts) (req : PostingRequest) :
    movement s' req = movement s req := by
  have hcheck : ∀ parsed, checkAccounts s' parsed = checkAccounts s parsed := by
    intro parsed
    unfold checkAccounts
    simp only [funext fun p => show checkActive s' p = checkActive s p by
      simp only [checkActive, h], funext fun p => show checkDirection s' p = checkDirection s p by
      simp only [checkDirection, h]]
  unfold movement
  simp only [hcheck]

/-- The lines a fresh request books. -/
def movementLines (state : LedgerState) (req : PostingRequest) :
    List (DoubleEntry.Line String String Int) :=
  ((movement state req).getD []).map (·.line)

/-! ## 2. A list of postings -/

section Posts

variable (digest : ByteArray → String) (salt : String)

/-- The requests posted one after another, each with its supply. -/
def postCalls (l : List (PostingRequest × Supply)) : List Call := l.map fun p => .post p.1 p.2

def Answer.accepted : Answer → Bool
  | .posting (.ok _) => true
  | _ => false

/-- The requests that are accepted when the list is posted from `state`, in order. -/
def acceptedRequests (l : List (PostingRequest × Supply)) (state : LedgerState) :
    List PostingRequest :=
  (((l.map (·.1)).zip (outputs (apply digest salt) (postCalls l) state)).filter
    (·.2.accepted)).map (·.1)

/-- What the requests, posted one after another from `base`, have made of it. -/
structure PostRun (base : LedgerState) (reqs : List PostingRequest) (s : LedgerState) : Prop where
  accounts : s.accounts = base.accounts
  lines : s.entries.map (·.line) =
    base.entries.map (·.line) ++ reqs.flatMap (movementLines base)
  recorded : ∀ id, (s.postings.lookup id).isSome ↔ (base.postings.lookup id).isSome ∨
    ∃ req ∈ reqs, req.postingId = id ∧ (movement base req).isSome

theorem PostRun.nil (base : LedgerState) : PostRun base [] base where
  accounts := rfl
  lines := by simp
  recorded _ := by simp


/-- A fresh request that books nothing leaves the state as it is. -/
theorem post_refused {state : LedgerState} {req : PostingRequest} (sup : Supply)
    (hfresh : state.postings.lookup req.postingId = none) (hm : movement state req = none) :
    ∃ e, post digest salt sup req state = (.error e, state) := by
  rcases post_cases digest salt sup req state with he | ⟨_, rec, _, hrec, _⟩ | ⟨parsed, ha⟩
  · exact he
  · rw [hfresh] at hrec
    cases hrec
  · have hsome := movement_eq_some_iff.mpr ⟨ha.valid, ha.accounts⟩
    rw [hm] at hsome
    cases hsome

/-- One posting more at the front of the list. -/
theorem PostRun.cons {base s' s : LedgerState} {req : PostingRequest} {reqs : List PostingRequest}
    (hfirst : PostRun base [req] s') (hrest : PostRun s' reqs s) :
    PostRun base (req :: reqs) s where
  accounts := hrest.accounts.trans hfirst.accounts
  lines := by
    have hsame : movementLines s' = movementLines base := by
      funext r
      unfold movementLines
      rw [movement_congr hfirst.accounts]
    rw [hrest.lines, hfirst.lines, hsame]
    simp
  recorded := by
    intro id
    rw [hrest.recorded, hfirst.recorded]
    simp [movement_congr hfirst.accounts, or_assoc]

/-- **One fresh request adds its movement.** -/
theorem postRun_one {state : LedgerState} {req : PostingRequest} (sup : Supply)
    (hfresh : state.postings.lookup req.postingId = none) :
    PostRun state [req] (post digest salt sup req state).2 ∧
      (Answer.posting (post digest salt sup req state).1).accepted =
        (movement state req).isSome := by
  cases hm : movement state req with
  | none =>
    obtain ⟨e, he⟩ := post_refused digest salt sup hfresh hm
    rw [he]
    refine ⟨⟨rfl, ?_, fun id => ?_⟩, rfl⟩
    · simp [movementLines, hm]
    · simp [hm]
  | some parsed =>
    obtain ⟨hv, hc⟩ := movement_eq_some_iff.mp hm
    have ha : Accepts state req parsed := ⟨hv, hfresh, hc⟩
    rw [post_accepted digest salt sup ha]
    refine ⟨⟨rfl, ?_, fun id => ?_⟩, rfl⟩
    · rw [record_entries, List.map_append,
        made_lines (createEntries_spec digest salt sup state req.postingId parsed).made]
      simp [movementLines, hm]
    · rw [record_postings]
      by_cases hid : id = req.postingId
      · subst hid
        simp [hm]
      · simp [AList.lookup_insert_ne hid, Ne.symm hid]

/-- **A list of distinct fresh postings adds the movements of its requests**, and it accepts
    exactly those that book something. -/
theorem postRun_all (l : List (PostingRequest × Supply)) {state : LedgerState}
    (hids : (l.map (·.1.postingId)).Nodup)
    (hfresh : ∀ p ∈ l, state.postings.lookup p.1.postingId = none) :
    PostRun state (l.map (·.1)) (runFrom digest salt (postCalls l) state) ∧
      acceptedRequests digest salt l state =
        (l.map (·.1)).filter fun req => (movement state req).isSome := by
  induction l generalizing state with
  | nil => exact ⟨.nil state, rfl⟩
  | cons p l ih =>
    rw [List.map_cons, List.nodup_cons] at hids
    rw [List.forall_mem_cons] at hfresh
    obtain ⟨hone, hans⟩ := postRun_one digest salt p.2 hfresh.1
    have hfresh' : ∀ q ∈ l, (post digest salt p.2 p.1 state).2.postings.lookup q.1.postingId =
        none := by
      intro q hq
      have hne : p.1.postingId ≠ q.1.postingId := by
        intro heq
        exact hids.1 (heq ▸ List.mem_map_of_mem hq)
      rw [← Option.not_isSome_iff_eq_none, hone.recorded, hfresh.2 q hq]
      simp [hne]
    obtain ⟨hrest, hacc⟩ := ih hids.2 hfresh'
    refine ⟨hone.cons hrest, ?_⟩
    have hsplit : acceptedRequests digest salt (p :: l) state =
        (if (Answer.posting (post digest salt p.2 p.1 state).1).accepted then [p.1] else []) ++
          acceptedRequests digest salt l (post digest salt p.2 p.1 state).2 := by
      have happ : apply digest salt (.post p.1 p.2) state =
          (.posting (post digest salt p.2 p.1 state).1, (post digest salt p.2 p.1 state).2) := rfl
      unfold acceptedRequests
      rw [List.map_cons, postCalls, List.map_cons, outputs, happ, List.zip_cons_cons,
        List.filter_cons]
      cases (Answer.posting (post digest salt p.2 p.1 state).1).accepted <;> rfl
    rw [hsplit, hans, hacc, List.map_cons, List.filter_cons]
    simp only [movement_congr hone.accounts]
    split <;> rfl

end Posts

/-! ## 3. Two orders -/

section Orders

variable {base s s' : LedgerState} {reqs reqs' : List PostingRequest}

theorem PostRun.lines_perm (h : PostRun base reqs s) (h' : PostRun base reqs' s')
    (hp : reqs.Perm reqs') : (s.entries.map (·.line)).Perm (s'.entries.map (·.line)) := by
  rw [h.lines, h'.lines]
  exact (hp.flatMap_right _).append_left _

theorem PostRun.computeBalance (h : PostRun base reqs s) (h' : PostRun base reqs' s')
    (hp : reqs.Perm reqs') (accountId asset : String) :
    computeBalance s accountId asset = computeBalance s' accountId asset := by
  rw [computeBalance_eq, computeBalance_eq]
  exact DoubleEntry.value_perm (h.lines_perm h' hp)

end Orders

/-- **Postings with distinct fresh ids may be posted in any order**: from every reachable state,
    two orders accept the same requests and end with the same counter, the same balances, the same
    custodial sum and the same recorded ids, whatever clock readings and identifiers each call
    draws. -/
theorem order_independent (digest : ByteArray → String) (salt : String) (calls : List Call)
    (l l' : List (PostingRequest × Supply)) (hperm : (l.map (·.1)).Perm (l'.map (·.1)))
    (hids : (l.map (·.1.postingId)).Nodup)
    (hfresh : ∀ p ∈ l, getPosting (runNew digest salt calls) p.1.postingId = none) :
    let state := runNew digest salt calls
    let s := runFrom digest salt (l.map fun p => .post p.1 p.2) state
    let s' := runFrom digest salt (l'.map fun p => .post p.1 p.2) state
    (acceptedRequests digest salt l state).Perm (acceptedRequests digest salt l' state) ∧
      s.sequence = s'.sequence ∧
      (∀ accountId asset, balance s accountId asset = balance s' accountId asset) ∧
      (∀ asset, userCustodialSum s asset = userCustodialSum s' asset) ∧
      ∀ id, (getPosting s id).isSome = (getPosting s' id).isSome := by
  intro state s s'
  have hr : Reachable digest salt state := ⟨calls, rfl⟩
  have hids' : (l'.map (·.1.postingId)).Nodup := by
    have hp := hperm.map (·.postingId)
    rw [List.map_map, List.map_map] at hp
    exact hp.nodup_iff.mp hids
  have hfresh' : ∀ p ∈ l', getPosting state p.1.postingId = none := by
    intro p hp
    obtain ⟨q, hq, hqp⟩ := List.mem_map.mp (hperm.mem_iff.mpr (List.mem_map_of_mem hp))
    exact hqp ▸ hfresh q hq
  obtain ⟨hrun, hacc⟩ := postRun_all digest salt l hids hfresh
  obtain ⟨hrun', hacc'⟩ := postRun_all digest salt l' hids' hfresh'
  obtain ⟨recs, hbook⟩ := reachable_bookkeeping (hr.runFrom (postCalls l))
  obtain ⟨recs', hbook'⟩ := reachable_bookkeeping (hr.runFrom (postCalls l'))
  have haccounts : s.accounts = s'.accounts := hrun.accounts.trans hrun'.accounts.symm
  have hbalance : ∀ accountId asset, computeBalance s accountId asset =
      computeBalance s' accountId asset := hrun.computeBalance hrun' hperm
  refine ⟨?_, ?_, fun accountId asset => ?_, fun asset => ?_, fun id => ?_⟩
  · rw [hacc, hacc']
    exact hperm.filter _
  · have hlen := (hrun.lines_perm hrun' hperm).length_eq
    rw [List.length_map, List.length_map] at hlen
    exact hbook.length.symm.trans (hlen.trans hbook'.length)
  · unfold balance
    rw [haccounts, hbalance]
  · unfold userCustodialSum
    simp only [haccounts, hbalance]
  · rw [Bool.eq_iff_iff]
    refine (hrun.recorded id).trans (Iff.trans ?_ (hrun'.recorded id).symm)
    simp only [hperm.mem_iff]
    exact Iff.rfl

/-- The sample posting and a refused one, in both orders. -/
theorem order_independent_sample :
    let refused : PostingRequest := ⟨"p2", [], none, none⟩
    let s := runFrom sampleDigest sampleSalt
      ([(sampleRequest, sampleSupply), (refused, sampleSupply)].map fun p => .post p.1 p.2)
      sampleOpen
    let s' := runFrom sampleDigest sampleSalt
      ([(refused, sampleSupply), (sampleRequest, sampleSupply)].map fun p => .post p.1 p.2)
      sampleOpen
    (acceptedRequests sampleDigest sampleSalt
      [(sampleRequest, sampleSupply), (refused, sampleSupply)] sampleOpen).Perm
        (acceptedRequests sampleDigest sampleSalt
          [(refused, sampleSupply), (sampleRequest, sampleSupply)] sampleOpen) ∧
      s.sequence = s'.sequence ∧
      (∀ accountId asset, balance s accountId asset = balance s' accountId asset) ∧
      (∀ asset, userCustodialSum s asset = userCustodialSum s' asset) ∧
      ∀ id, (getPosting s id).isSome = (getPosting s' id).isSome :=
  order_independent sampleDigest sampleSalt sampleAccounts
    [(sampleRequest, sampleSupply), (⟨"p2", [], none, none⟩, sampleSupply)]
    [(⟨"p2", [], none, none⟩, sampleSupply), (sampleRequest, sampleSupply)]
    (.swap _ _ _) (by decide) (by decide +kernel)

end LedgerAccounting
