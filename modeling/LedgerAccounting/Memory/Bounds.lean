/-
  File:      LedgerAccounting/Memory/Bounds.lean
  Subject:   The sums the in-memory store forms in `i128`, and that none of them overflows.

  An entry is at most `MAX_AMOUNT`, as `post` checks, and a `u64` numbers fewer than 2^64 of them: a
  sum over some of the entries is below 2^104. A snapshot plus a delta is two such sums, and the
  accounts of `user_custodial_sum` share the entries among them.

  * `sums_fit`: all sums stay within the range, in every reachable state.
-/
import LedgerAccounting.Lib.PartialSums
import LedgerAccounting.Memory.Statement
import LedgerAccounting.Memory.TrialBalance

namespace LedgerAccounting

open PartialSums Runs

/-- Strictly between `i128::MIN` and `i128::MAX`. -/
def InI128 (n : Int) : Prop := -2 ^ 127 < n ∧ n < 2 ^ 127 - 1

instance : DecidablePred InI128 := fun n =>
  inferInstanceAs (Decidable (-2 ^ 127 < n ∧ n < 2 ^ 127 - 1))

/-! ## 1. The values of the accumulators -/

section Sums

variable (state : LedgerState) (accountId asset : String)

/-- The values of the accumulator of `compute_balance`. -/
def balanceSums : List Int :=
  (matching state.entries accountId asset).scanl (fun acc e => acc + e.signed) 0

/-- The values of the balance in `build_snapshot`. -/
def snapshotSums : List Int :=
  ((matching state.entries accountId asset).scanl
    (fun (acc : Int × String × Nat) e => (acc.1 + e.signed, e.entryId, e.sequenceNumber))
    (0, "", 0)).map (·.1)

/-- The values of the delta in `balance_via_snapshot`, after the snapshot `s`. -/
def deltaSums (s : BalanceSnapshot) : List Int :=
  ((matching state.entries accountId asset).filter fun e =>
    s.lastSequence < e.sequenceNumber).scanl (fun acc e => acc + e.signed) 0

/-- The values of the total in `user_custodial_sum`, where it visits the accounts in the order
    `visited`. -/
def custodialSums (visited : List (Sigma fun _ : String => Account)) : List Int :=
  visited.scanl
    (fun total p =>
      if p.2.typeName == "user_custodial" then total + computeBalance state p.1 asset else total)
    0

/-- The values of `per_asset` in `post`. -/
def assetTotals (parsed : List ParsedEntry) : List (AList fun _ : String => Int × Int) :=
  parsed.scanl addToAsset ∅

/-- The request has come to the totals: its size, its amounts and its directions are right. -/
structure Totalled (req : PostingRequest) (parsed : List ParsedEntry) : Prop where
  size : checkSize req = .ok ()
  amounts : req.entries.forM checkAmount = .ok ()
  parses : req.entries.mapM parseEntry = .ok parsed

/-- **All sums fit**: those of `compute_balance`, of `build_snapshot`, of `user_custodial_sum` in
    every order of the accounts, of `balance_via_snapshot`, of every page of `ledger` and of every
    request to `post`. -/
structure SumsFit : Prop where
  balance : ∀ accountId asset, ∀ n ∈ balanceSums state accountId asset, InI128 n
  snapshot : ∀ accountId asset, ∀ n ∈ snapshotSums state accountId asset, InI128 n
  custodial : ∀ asset visited, visited.Perm state.accounts.entries →
    ∀ n ∈ custodialSums state asset visited, InI128 n
  viaSnapshot : ∀ accountId asset s, latestSnapshot state accountId asset = some s →
    ∀ n ∈ deltaSums state accountId asset s, InI128 n ∧ InI128 (s.balance + n)
  ledger : ∀ accountId since till limit cursor page,
    ledger state accountId since till limit cursor = .ok page →
      (∀ i ∈ page.entries, InI128 i.runningBalance) ∧ InI128 page.finalBalance
  post : ∀ req parsed, Totalled req parsed → ∀ totals ∈ assetTotals parsed,
    ∀ p ∈ totals.entries, InI128 p.2.1 ∧ InI128 p.2.2

/-! The accumulators end with what the functions return. -/

theorem balanceSums_last : (balanceSums state accountId asset).getLast? =
    some (computeBalance state accountId asset) := List.getLast?_scanl

theorem snapshotSums_last (now : String) : (snapshotSums state accountId asset).getLast? =
    some (buildSnapshot state accountId asset now).balance := by
  unfold snapshotSums
  rw [List.getLast?_map, List.getLast?_scanl]
  rfl

variable {state accountId asset} in
theorem deltaSums_last (hacc : (state.accounts.lookup accountId).isSome) {s : BalanceSnapshot}
    (hs : latestSnapshot state accountId asset = some s) :
    ∃ delta, (deltaSums state accountId asset s).getLast? = some delta ∧
      balanceViaSnapshot state accountId asset = some (s.balance + delta) := by
  refine ⟨_, List.getLast?_scanl, ?_⟩
  have hknown : (state.accounts.lookup accountId).isNone = false := by
    rw [← Option.not_isSome, hacc]
    rfl
  unfold balanceViaSnapshot
  rw [hknown, hs]
  rfl

theorem custodialSums_last : (custodialSums state asset state.accounts.entries).getLast? =
    some (userCustodialSum state asset) := List.getLast?_scanl

theorem assetTotals_last (parsed : List ParsedEntry) : (assetTotals parsed).getLast? =
    some (perAsset parsed) := List.getLast?_scanl

end Sums

/-! ## 2. Sums over entries -/

section Bounds

variable {digest : ByteArray → String} {salt : String} {state : LedgerState}

theorem signed_abs_le (e : EntryRecord) : |e.signed| ≤ e.amount := by
  unfold EntryRecord.signed
  split
  · exact (abs_of_nonneg (Int.natCast_nonneg _)).le
  · rw [abs_neg]
    exact (abs_of_nonneg (Int.natCast_nonneg _)).le
  · simp

/-- **All entries of a state come to less than 2^64 times the largest amount.** -/
theorem entries_size (h : Reachable digest salt state) (hsize : state.entries.length < 2 ^ 64) :
    size (·.signed) state.entries ≤ 2 ^ 64 * maxAmount := by
  have hle : size (·.signed) state.entries ≤ state.entries.length • (maxAmount : Int) := by
    refine size_le fun e he => (signed_abs_le e).trans ?_
    exact_mod_cast (reachable_checked h e he).amount.2
  refine hle.trans ?_
  rw [nsmul_eq_mul]
  exact mul_le_mul_of_nonneg_right (by exact_mod_cast hsize.le) (Int.natCast_nonneg _)

/-- Two sums of entries fit together. -/
theorem inI128_of_abs {n : Int} (h : |n| ≤ 2 * (2 ^ 64 * maxAmount)) : InI128 n := by
  have hmax : (maxAmount : Int) = 1000000000000 := rfl
  rw [hmax] at h
  obtain ⟨hlow, hhigh⟩ := abs_le.mp h
  unfold InI128
  omega

theorem inI128_of_size {n : Int} (h : |n| ≤ 2 ^ 64 * maxAmount) : InI128 n := by
  refine inI128_of_abs (h.trans ?_)
  have hmax : (maxAmount : Int) = 1000000000000 := rfl
  omega

/-- A sum over some of the entries. -/
theorem some_abs_le (h : Reachable digest salt state) (hsize : state.entries.length < 2 ^ 64)
    {l : List EntryRecord} (hl : l.Sublist state.entries) :
    |(l.map (·.signed)).sum| ≤ 2 ^ 64 * maxAmount :=
  (abs_sum_le_of_sublist hl).trans (entries_size h hsize)

/-- The accumulator of a loop over some of the entries. -/
theorem scan_abs_le (h : Reachable digest salt state) (hsize : state.entries.length < 2 ^ 64)
    {l : List EntryRecord} (hl : l.Sublist state.entries) :
    ∀ n ∈ l.scanl (fun (acc : Int) e => acc + e.signed) 0, |n| ≤ 2 ^ 64 * maxAmount := by
  intro n hn
  obtain ⟨k, _, rfl⟩ := mem_scanl_iff.mp hn
  rw [foldl_signed, zero_add]
  exact some_abs_le h hsize ((List.take_sublist k l).trans hl)

/-- A balance is no larger than the entries of its account. -/
theorem computeBalance_abs_le (state : LedgerState) (accountId asset : String) :
    |computeBalance state accountId asset| ≤
      size (·.signed) (state.entries.filter fun e => e.accountId == accountId) := by
  rw [computeBalance_signed]
  exact abs_sum_le_of_sublist (matching_sublist _ _ _)

/-- **The accounts share the entries**: however many have been visited, the total is no larger than
    all entries. -/
theorem custodial_abs_le (state : LedgerState) (asset : String)
    {visited : List (Sigma fun _ : String => Account)}
    (hv : visited.Perm state.accounts.entries) :
    ∀ n ∈ custodialSums state asset visited, |n| ≤ size (·.signed) state.entries := by
  intro n hn
  obtain ⟨k, _, rfl⟩ := mem_scanl_iff.mp hn
  rw [foldl_select (fun p : Sigma fun _ : String => Account => p.2.typeName == "user_custodial")
    (fun p => computeBalance state p.1 asset), zero_add]
  have hkeys : (((visited.take k).filter fun p => p.2.typeName == "user_custodial").map
      (·.1)).Nodup := by
    have hsub := List.filter_sublist (p := fun p => p.2.typeName == "user_custodial")
      |>.trans (List.take_sublist k visited)
    exact (hsub.map _).nodup (((hv.map _).nodup_iff).mpr state.accounts.keys_nodup)
  have hfibres := abs_sum_fibres_le (·.accountId) hkeys state.entries
    (fun a => computeBalance state a asset) fun a => computeBalance_abs_le state a asset
  rw [List.map_map] at hfibres
  exact hfibres

/-- A snapshot of the state is a sum over some of its entries. -/
theorem snapshot_abs_le (h : Reachable digest salt state) (hsize : state.entries.length < 2 ^ 64)
    {s : BalanceSnapshot} (hs : s ∈ state.snapshots) : |s.balance| ≤ 2 ^ 64 * maxAmount := by
  obtain ⟨old, hold, htaken⟩ := reachable_snapshotsTaken h s hs
  rw [htaken.balance]
  exact some_abs_le h hsize ((matching_sublist_all _ _ _).trans hold.sublist)

/-! ## 3. Sums over a request -/

/-- Each side of the totals of some entries. -/
theorem addSide_bounds {l : List ParsedEntry} (h : ∀ p ∈ l, p.amount ≤ maxAmount) :
    (0 ≤ (l.foldl addSide (0, 0)).1 ∧ (l.foldl addSide (0, 0)).1 ≤ l.length * maxAmount) ∧
      0 ≤ (l.foldl addSide (0, 0)).2 ∧ (l.foldl addSide (0, 0)).2 ≤ l.length * maxAmount := by
  induction l using List.reverseRecOn with
  | nil => simp
  | append_singleton l p ih =>
    have hp := h p (List.mem_append_right _ (List.mem_singleton_self p))
    have hmax : (maxAmount : Int) = 1000000000000 := rfl
    have hrest := ih fun q hq => h q (List.mem_append_left _ hq)
    rw [List.foldl_append, List.length_append, List.length_singleton]
    generalize l.foldl addSide (0, 0) = sides at hrest
    simp only [List.foldl_cons, List.foldl_nil, addSide]
    rw [hmax] at hrest ⊢
    push_cast
    cases p.dir <;> simp only <;> omega

theorem Totalled.amount {req : PostingRequest} {parsed : List ParsedEntry}
    (h : Totalled req parsed) : ∀ p ∈ parsed, p.amount ≤ maxAmount := by
  intro p hp
  obtain ⟨e, he, hparse⟩ := forall₂_mem_right (mapM_ok_iff.mp h.parses) hp
  obtain ⟨_, _, hamount, _⟩ := (parseEntry_ok_iff e p).mp hparse
  obtain ⟨_, _, _, _, hmax⟩ := (checkAmount_ok_iff e).mp (forM_ok_iff.mp h.amounts e he)
  rw [hamount]
  exact hmax

theorem Totalled.length {req : PostingRequest} {parsed : List ParsedEntry}
    (h : Totalled req parsed) : parsed.length ≤ maxEntriesPerPosting := by
  rw [← (mapM_ok_iff.mp h.parses).length_eq]
  exact ((checkSize_ok_iff req).mp h.size).2

/-- **The totals of a request fit**, whether its sides agree or not. -/
theorem totals_inI128 {req : PostingRequest} {parsed : List ParsedEntry} (h : Totalled req parsed) :
    ∀ totals ∈ assetTotals parsed, ∀ p ∈ totals.entries, InI128 p.2.1 ∧ InI128 p.2.2 := by
  intro totals htotals p hp
  obtain ⟨k, _, rfl⟩ := mem_scanl_iff.mp htotals
  let ofAsset := (parsed.take k).filter fun q => decide (q.asset = p.1)
  have hsub : ofAsset.Sublist parsed := List.filter_sublist.trans (List.take_sublist k parsed)
  have hlookup : (perAsset (parsed.take k)).lookup p.1 = some p.2 := AList.mem_lookup_iff.mpr hp
  have hsides : p.2 = ofAsset.foldl addSide (0, 0) := by
    have htotal := perAsset_lookup (parsed.take k) p.1
    rwa [hlookup, Option.getD_some] at htotal
  obtain ⟨hdebits, hcredits⟩ := addSide_bounds fun q hq => h.amount q (hsub.subset hq)
  rw [← hsides] at hdebits hcredits
  have hlength : ofAsset.length ≤ 64 := hsub.length_le.trans h.length
  have hmax : (maxAmount : Int) = 1000000000000 := rfl
  rw [hmax] at hdebits hcredits
  unfold InI128
  omega

/-! ## 4. All sums -/

/-- The running balances of a page are sums over the entries it has shown. -/
theorem page_inI128 (h : Reachable digest salt state) (hsize : state.entries.length < 2 ^ 64)
    {accountId : String} {since till : Option String} {limit : Nat} {cursor : Option Nat}
    {page : LedgerPage} (hpage : ledger state accountId since till limit cursor = .ok page) :
    ∀ i ∈ page.entries, InI128 i.runningBalance := by
  intro i hi
  obtain ⟨hentries, _, _⟩ := ledger_ok h hpage
  rw [hentries] at hi
  obtain ⟨front, e, rest, hshown, rfl⟩ := mem_runningItems hi
  have hsub : (front ++ [e]).Sublist state.entries := by
    have hfront : (front ++ [e]).Sublist (front ++ e :: rest) :=
      (List.singleton_sublist.mpr List.mem_cons_self).append_left front
    rw [← hshown] at hfront
    exact hfront.trans ((List.take_sublist _ _).trans
      (List.filter_sublist.trans List.filter_sublist))
  rw [item_runningBalance, zero_add]
  exact inI128_of_size (some_abs_le h hsize hsub)

/-- **No sum overflows**, in any reachable state whose entries a `u64` can number. -/
theorem sums_fit (digest : ByteArray → String) (salt : String) (state : LedgerState)
    (h : Reachable digest salt state) (hsize : state.entries.length < 2 ^ 64) :
    SumsFit state where
  balance accountId asset n hn :=
    inI128_of_size (scan_abs_le h hsize (matching_sublist_all _ accountId asset) n hn)
  snapshot accountId asset n hn := by
    obtain ⟨acc, hacc, rfl⟩ := List.mem_map.mp hn
    obtain ⟨k, _, rfl⟩ := mem_scanl_iff.mp hacc
    rw [foldl_snapshot, zero_add]
    exact inI128_of_size (some_abs_le h hsize
      ((List.take_sublist k _).trans (matching_sublist_all _ accountId asset)))
  custodial asset visited hvisited n hn :=
    inI128_of_size ((custodial_abs_le state asset hvisited n hn).trans (entries_size h hsize))
  viaSnapshot accountId asset s hs n hn := by
    have hmem : s ∈ state.snapshots := by
      have hfound := List.mem_of_find?_eq_some hs
      rw [List.mem_reverse] at hfound
      exact List.mem_of_mem_filter hfound
    have hdelta := scan_abs_le h hsize
      (List.filter_sublist.trans (matching_sublist_all _ accountId asset)) n hn
    refine ⟨inI128_of_size hdelta, inI128_of_abs ((abs_add_le _ _).trans ?_)⟩
    have hsnapshot := snapshot_abs_le h hsize hmem
    omega
  ledger accountId since till limit cursor page hpage := by
    obtain ⟨_, _, hfinal⟩ := ledger_ok h hpage
    refine ⟨page_inI128 h hsize hpage, ?_⟩
    rw [hfinal]
    exact inI128_of_size ((computeBalance_abs_le state accountId "").trans
      ((size_sublist List.filter_sublist).trans (entries_size h hsize)))
  post req parsed htotalled := totals_inI128 htotalled

/-- The sample run. -/
theorem sums_fit_sample : SumsFit sampleState :=
  sums_fit sampleDigest sampleSalt sampleState sampleState_reachable (by decide +kernel)

end Bounds

end LedgerAccounting
