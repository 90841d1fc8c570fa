/-
  File:      LedgerAccounting/Pool/CustodialSum.lean
  Subject:   `user_custodial_sum` with a pool beside concurrent `post` calls.

  The accounts are listed by one query and each balance is read by a query of its own, so the sum
  may mix several moments: a posting committed between two of the reads is counted for the accounts
  read after it and not for those read before.

  * `userCustodialSum_ran`: the call alone is the function of what its queries answer.
  * `userCustodialSum_spec`: the sum is that of each account at the moment it was read.
  * `custodial_sum_consistent_iff`: when it is the total of one moment of the call.
-/
import LedgerAccounting.Lib.Alone
import LedgerAccounting.Pool.Beside
import LedgerAccounting.Run

namespace LedgerAccounting

open Script

/-! ## 1. Totals and reads -/

/-- The total over the `user_custodial` accounts. -/
def custodialTotal (t : Tables) (asset : String) : Int :=
  ((custodialIds t.accounts).map fun id => sumSigned t.entries id asset).sum

/-- What the transactions have booked on the account in the asset. -/
def bookedIn (commits : List Commit) (accountId asset : String) : Int :=
  sumSigned (commits.flatMap (·.tables.entries)) accountId asset

/-- What the reads made before the moment `k` miss of it: on each account read, what was committed
    between its read and `k`. -/
def Beside.missed (b : Beside) (asset : String) (k : Nat) : Int :=
  (b.own.sums.map fun r =>
    bookedIn ((b.posts.state.log.take k).drop r.committed) r.accountId asset).sum

/-- What the reads made after the moment `k` have beyond it. -/
def Beside.ahead (b : Beside) (asset : String) (k : Nat) : Int :=
  (b.own.sums.map fun r =>
    bookedIn ((b.posts.state.log.take r.committed).drop k) r.accountId asset).sum

/-- The balances read, each at its own moment. -/
def Beside.readTotal (b : Beside) (asset : String) : Int :=
  (b.own.sums.map fun r =>
    sumSigned (b.posts.state.dbAt r.committed).entries r.accountId asset).sum

/-- A balance at one moment and at another differ by what is committed in between. -/
theorem sumSigned_dbAt (w : World) (m k : Nat) (accountId asset : String) :
    sumSigned (w.dbAt m).entries accountId asset +
        bookedIn ((w.log.take k).drop m) accountId asset =
      sumSigned (w.dbAt k).entries accountId asset +
        bookedIn ((w.log.take m).drop k) accountId asset := by
  have hforward : ∀ {m k : Nat}, m ≤ k →
      sumSigned (w.dbAt m).entries accountId asset +
          bookedIn ((w.log.take k).drop m) accountId asset =
        sumSigned (w.dbAt k).entries accountId asset +
          bookedIn ((w.log.take m).drop k) accountId asset := by
    intro m k h
    have hnone : (w.log.take m).drop k = [] :=
      List.drop_eq_nil_of_le ((List.length_take_le _ _).trans h)
    rw [hnone, dbAt_split w h, sumSigned_append]
    exact (Int.add_zero _).symm
  rcases Nat.le_total m k with h | h
  · exact hforward h
  · exact (hforward h).symm

/-! ## 2. The call alone -/

section Alone

variable {fails : SummaryStmt → Prop} {t : Tables} {n : Nat} {asset : String}
  {sums : String → Except String Int}

/-- Two answers of one query count for the same. -/
theorem balanceFromDb_answers {failed : Prop} {x : Int} {r r' : Except String Int}
    (h : AnswersUnless failed (· = x) r) (h' : AnswersUnless failed (· = x) r') :
    balanceFromDb r = balanceFromDb r' := by
  by_cases hf : failed
  · cases r with
    | ok sum => exact absurd hf h.1
    | error e =>
      cases r' with
      | ok sum => exact absurd hf h'.1
      | error e' => rfl
  · obtain ⟨sum, rfl, hsum⟩ := h.ok hf
    obtain ⟨sum', rfl, hsum'⟩ := h'.ok hf
    rw [hsum, hsum']

theorem custodialLoop_ran
    (hsums : ∀ id, AnswersUnless (fails (.selectSum id asset))
      (· = sumSigned t.entries id asset) (sums id)) {ids : List String} {total v : Int}
    {s s' : Summaries} (h : Ran (SummaryExec fails t n) (custodialLoop asset total ids) s v s') :
    v = ids.foldl (fun total id => addBalance total (balanceFromDb (sums id))) total := by
  induction ids generalizing total s with
  | nil => exact (ran_ret_iff.mp h).1
  | cons id ids ih =>
    obtain ⟨sum, s₁, hexec, h⟩ := ran_bind_iff.mp h
    obtain ⟨_, hsum⟩ := ran_perform_iff.mp hexec
    rw [List.foldl_cons, ← balanceFromDb_answers hsum (hsums id)]
    exact ih h

/-- **The call alone is the function of what its queries answer.** -/
theorem userCustodialSum_ran
    (hsums : ∀ id, AnswersUnless (fails (.selectSum id asset))
      (· = sumSigned t.entries id asset) (sums id)) {v : Int} {s s' : Summaries}
    (h : Ran (SummaryExec fails t n) (userCustodialSumPool asset) s v s') :
    ∃ accounts, AnswersUnless (fails .selectCustodial) (·.Perm (custodialIds t.accounts)) accounts ∧
      v = userCustodialSumDb accounts sums := by
  obtain ⟨accounts, s₁, hexec, h⟩ := ran_bind_iff.mp h
  obtain ⟨_, haccounts⟩ := ran_perform_iff.mp hexec
  refine ⟨accounts, haccounts, ?_⟩
  cases accounts with
  | error e => exact (ran_ret_iff.mp h).1
  | ok ids => exact custodialLoop_ran hsums h

end Alone

/-! ## 3. What the call sums up beside posts -/

/-- The call, begun when `n` transactions were committed, has read the listed accounts up to `rest`
    and the total of what it read. -/
structure Summed (accounts : List AccountRow) (n : Nat) (asset : String) (rest : List String)
    (total : Int) (b : Beside) : Prop where
  ids : (b.own.sums.map (·.accountId) ++ rest).Perm (custodialIds accounts)
  moments : ∀ r ∈ b.own.sums, n ≤ r.committed ∧ r.committed ≤ b.committed
  since : n ≤ b.committed
  total : total = b.readTotal asset

section Calls

variable {digest : ByteArray → String} {salt : String} {calls : Nat → PoolCall}
  {replica : Nat → Nat} {base : Tables} {inner : Nat → LedgerState} {n : Nat} {asset : String}

/-- A script beside the posts: what it knows before and after. -/
abbrev Beside.Spec {α : Type} (digest : ByteArray → String) (salt : String)
    (calls : Nat → PoolCall) (replica : Nat → Nat) (base : Tables) (inner : Nat → LedgerState)
    (P : Beside → Prop) (p : Script SummaryStmt SummaryReply α) (Q : α → Beside → Prop) : Prop :=
  Triple Onward (fun b => Interleaved digest salt calls replica base inner b.posts) BesideExec P p Q

theorem stable_summed (rest : List String) (total : Int) :
    Stable Onward (Summed base.accounts n asset rest total) := by
  intro b b' h hon
  refine ⟨?_, fun r hr => ?_, h.since.trans hon.committed, ?_⟩
  · rw [hon.sums]
    exact h.ids
  · rw [hon.sums] at hr
    obtain ⟨hn, hle⟩ := h.moments r hr
    exact ⟨hn, hle.trans hon.committed⟩
  · rw [h.total]
    unfold Beside.readTotal
    rw [hon.sums]
    refine congrArg List.sum (List.map_congr_left fun r hr => ?_)
    rw [hon.dbAt (h.moments r hr).2]

/-- **The loop adds up the accounts, each at the moment it is read.** -/
theorem custodialLoop_spec (ids : List String) (total : Int) :
    Beside.Spec digest salt calls replica base inner (Summed base.accounts n asset ids total)
      (custodialLoop asset total ids) fun v => Summed base.accounts n asset [] v := by
  induction ids generalizing total with
  | nil => exact Triple.ret _ fun b b' h hon => stable_summed _ _ b b' h hon
  | cons accountId ids ih =>
    refine Triple.bind Onward.refl
      (M := fun sum => Summed base.accounts n asset ids (addBalance total (balanceFromDb sum)))
      (query_beside (stable_summed _ _) (fun b r own h hI he => ?_) fun r => stable_summed _ _)
      fun sum => ih _
    obtain ⟨rfl, hanswer⟩ := he
    obtain ⟨sum, rfl, hsum⟩ := hanswer.ok id
    refine ⟨hI, ?_, fun r hr => ?_, h.since, ?_⟩
    · rw [List.map_append, List.append_assoc]
      exact h.ids
    · rcases List.mem_append.mp hr with hr | hr
      · exact h.moments r hr
      · rw [List.mem_singleton.mp hr]
        exact ⟨h.since, le_rfl⟩
    · have hnow : sum = sumSigned (b.posts.state.dbAt b.committed).entries accountId asset := by
        rw [hsum, Beside.committed, dbAt_length]
      unfold Beside.readTotal
      rw [List.map_append, List.sum_append]
      change total + sum = _
      rw [h.total, hnow, List.map_singleton, List.sum_singleton]
      rfl

/-- **The sum is that of each account at the moment it was read.** -/
theorem userCustodialSum_spec :
    Beside.Spec digest salt calls replica base inner (fun b => b.own.sums = [] ∧ n ≤ b.committed)
      (userCustodialSumPool asset) fun v => Summed base.accounts n asset [] v := by
  have hstart : Stable Onward fun b : Beside => b.own.sums = [] ∧ n ≤ b.committed :=
    fun b b' h hon => ⟨hon.sums.trans h.1, h.2.trans hon.committed⟩
  refine Triple.bind Onward.refl
    (M := fun listed b => ∃ ids, listed = .ok ids ∧ Summed base.accounts n asset ids 0 b)
    (query_beside hstart (fun b r own h hI he => ?_) fun r b b' h hon => ?_) fun listed => ?_
  · obtain ⟨rfl, hanswer⟩ := he
    obtain ⟨ids, rfl, hids⟩ := hanswer.ok id
    have haccounts : b.posts.state.db.accounts = base.accounts := by
      rw [← dbAt_length, interleaved_accounts hI]
    refine ⟨hI, ids, rfl, ?_, fun r hr => ?_, h.2, ?_⟩
    · rw [h.1, ← haccounts]
      exact hids
    · rw [h.1] at hr
      cases hr
    · unfold Beside.readTotal
      rw [h.1]
      rfl
  · obtain ⟨ids, hok, hsummed⟩ := h
    exact ⟨ids, hok, stable_summed _ _ b b' hsummed hon⟩
  · intro b h
    obtain ⟨ids, rfl, hsummed⟩ := h
    exact custodialLoop_spec ids 0 b hsummed

end Calls

/-! ## 4. The total of one moment -/

/-- The reads and one moment differ by what they miss of it and what they have beyond it. -/
theorem Summed.total_at {accounts : List AccountRow} {n : Nat} {asset : String} {v : Int}
    {b : Beside} (h : Summed accounts n asset [] v b) (k : Nat)
    (haccounts : (b.posts.state.dbAt k).accounts = accounts) :
    v + b.missed asset k = custodialTotal (b.posts.state.dbAt k) asset + b.ahead asset k := by
  have hids : ((custodialIds accounts).map fun id =>
        sumSigned (b.posts.state.dbAt k).entries id asset).sum =
      (b.own.sums.map fun r =>
        sumSigned (b.posts.state.dbAt k).entries r.accountId asset).sum := by
    have hperm := h.ids
    rw [List.append_nil] at hperm
    rw [← (hperm.map _).sum_eq, List.map_map]
    rfl
  unfold custodialTotal Beside.missed Beside.ahead
  rw [haccounts, hids, h.total, Beside.readTotal, ← List.sum_map_add, ← List.sum_map_add]
  exact congrArg List.sum (List.map_congr_left fun r _ => sumSigned_dbAt _ _ _ _ _)

/-- A call whose reads no commit separates returns the total of their moment. -/
theorem Summed.one_moment {accounts : List AccountRow} {n : Nat} {asset : String} {v : Int}
    {b : Beside} (h : Summed accounts n asset [] v b) {k : Nat}
    (hreads : ∀ r ∈ b.own.sums, r.committed = k)
    (haccounts : (b.posts.state.dbAt k).accounts = accounts) :
    v = custodialTotal (b.posts.state.dbAt k) asset := by
  have hsame : b.missed asset k = b.ahead asset k := by
    unfold Beside.missed Beside.ahead
    refine congrArg List.sum (List.map_congr_left fun r hr => ?_)
    rw [hreads r hr]
  have hat := h.total_at k haccounts
  omega

/-- **The sum over the `user_custodial` accounts beside concurrent posts**, in every interleaving:
    it is the total of one moment between the start and the end of the call if and only if there is
    such a moment of which the earlier reads miss as much as the later ones have beyond it. -/
theorem custodial_sum_consistent_iff (digest : ByteArray → String) (salt : String)
    (calls : Nat → PoolCall) (replica : Nat → Nat) (base : Tables) (inner : Nat → LedgerState)
    (c : Posts) (hc : Interleaved digest salt calls replica base inner c) (asset : String)
    (table : List SnapshotRow) (cache : List BalanceSnapshot) (b : Beside) (v : Int)
    (hrun : CallReach replica (userCustodialSumPool asset) c table cache (b, .ret v)) :
    (∃ k, c.state.log.length ≤ k ∧ k ≤ b.committed ∧
      v = custodialTotal (b.posts.state.dbAt k) asset) ↔
    ∃ k, c.state.log.length ≤ k ∧ k ≤ b.committed ∧ b.missed asset k = b.ahead asset k := by
  obtain ⟨hI, hsummed⟩ := (userCustodialSum_spec (n := c.state.log.length)).amid Onward.refl
    Onward.trans (fun b b' hI hgoes => ⟨goes_onward hgoes, goes_interleaved hgoes hI⟩) hc
    ⟨rfl, le_rfl⟩ hrun
  have htotal := fun k => hsummed.total_at k (interleaved_accounts hI k)
  constructor
  · intro h
    obtain ⟨k, hn, hk, hv⟩ := h
    have hat := htotal k
    exact ⟨k, hn, hk, by omega⟩
  · intro h
    obtain ⟨k, hn, hk, hdrift⟩ := h
    have hat := htotal k
    exact ⟨k, hn, hk, by omega⟩

/-! Two users without funds and a posting that moves 100 USD from one to the other. -/

def custodyTables : Tables where
  accounts :=
    [ ⟨"ua", "user_custodial", "BOTH", "user_custodial-ua", none, "ACTIVE", 0⟩,
      ⟨"ub", "user_custodial", "BOTH", "user_custodial-ub", none, "ACTIVE", 0⟩ ]
  postings := []
  entries := []
  hashChain := []

def transferCall : PoolCall where
  sup := sampleSupply
  sink := false
  req :=
    { postingId := "mv1"
      entries := [⟨"ua", "CREDIT", 100, "USD"⟩, ⟨"ub", "DEBIT", 100, "USD"⟩]
      memo := none
      refTxId := none }

/-- Nothing has been sent yet. -/
def transferStart : Posts :=
  startCalls sampleDigest sampleSalt (fun _ => transferCall)
    (World.start custodyTables fun _ => .new)

/-- The list of accounts, some statements of the posting, the first balance, some more, and the
    second balance. -/
def sumBeside (first second : Nat) : Beside × Script SummaryStmt SummaryReply Int :=
  runBeside (userCustodialSumPool "USD") transferStart
    [none, some (List.replicate first 0), none, some (List.replicate second 0), none]

/-- The posting is committed before the first balance is read. -/
theorem custodial_sum_consistent_iff_sample :
    ∃ k, 0 ≤ k ∧ k ≤ (sumBeside 20 0).1.committed ∧
      0 = custodialTotal ((sumBeside 20 0).1.posts.state.dbAt k) "USD" :=
  (custodial_sum_consistent_iff sampleDigest sampleSalt (fun _ => transferCall) id custodyTables
    (fun _ => .new) transferStart .refl "USD" [] [] (sumBeside 20 0).1 0
    (beside_returned (by decide +kernel))).mpr ⟨1, by decide, by decide +kernel, by decide +kernel⟩

/-- The posting is committed between the two reads: the sum is 100, and it is 0 at every moment. -/
theorem transfer_changes_sum :
    ∃ b, CallReach id (userCustodialSumPool "USD") transferStart [] [] (b, .ret 100) ∧
      b.committed = 1 ∧ ∀ k ≤ b.committed, custodialTotal (b.posts.state.dbAt k) "USD" = 0 :=
  ⟨(sumBeside 0 20).1, beside_returned (by decide +kernel), by decide +kernel, by decide +kernel⟩

end LedgerAccounting
