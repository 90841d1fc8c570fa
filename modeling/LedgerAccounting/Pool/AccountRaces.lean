/-
  File:      LedgerAccounting/Pool/AccountRaces.lean
  Subject:   Calls of `create_account` that run at the same time on replicas of one database, with
             statements that fail and commits whose answer is lost.

  * `accountExec_inv`: what every statement keeps.
  * `createAccountPool_spec`: what a call answers, whatever the other calls do in between.
  * `account_races_sound`: every interleaving keeps the constraints, and tells a call the truth.
  * `one_creator`: of the calls that ask for one new id, exactly one is told that it created it.
  * `calls_in_turn`: the calls of Accounts.lean, one after another, are one of the interleavings.
-/
import LedgerAccounting.Lib.Inserts
import LedgerAccounting.Lib.Script
import LedgerAccounting.Pool.Accounts
import LedgerAccounting.Pool.Listings

namespace LedgerAccounting

open Keyed Script

/-! ## 1. The statements of many sessions -/

/-- The rows of `accounts` with the transactions that insert them, the `LedgerState` of each
    replica; and of the history, the sessions that entered their account in their replica's map. -/
structure AccountWorld where
  db : Inserts.Db Nat AccountRow
  inner : Nat → LedgerState
  cachedBy : List Nat

def AccountWorld.start (base : List AccountRow) (inner : Nat → LedgerState) : AccountWorld :=
  ⟨.start base, inner, []⟩

def AccountWorld.setDb (w : AccountWorld) (db : Inserts.Db Nat AccountRow) : AccountWorld :=
  { w with db := db }

/-- Session `i` enters the account in the map of replica `p`. -/
def AccountWorld.enter (w : AccountWorld) (p i : Nat) (a : Account) : AccountWorld :=
  { w with
    inner := Function.update w.inner p
      { w.inner p with accounts := (w.inner p).accounts.insert a.accountId a }
    cachedBy := w.cachedBy ++ [i] }

/-- **A statement of session `i`**, whose replica is `replica i`, may answer `r` and leave `w'`. Any
    statement may fail. An insert has no step while another open transaction holds its key. -/
def AccountExec (replica : Nat → Nat) (i : Nat) :
    (o : AccountStmt) → AccountWorld → AccountReply o → AccountWorld → Prop
  | .begin, w, r, w' => (∃ e, r = .error e ∧ w' = w) ∨ r = .ok () ∧ w' = w.setDb (w.db.discard i)
  | .insertAccount row, w, r, w' => (∃ e, r = .error e ∧ w' = w) ∨
      (r = .ok 0 ∧ hasAccountId (w.db.visible i) row.accountId = true ∧ w' = w) ∨
      r = .ok 1 ∧ w.db.Free (·.accountId) row.accountId ∧ orphan (w.db.visible i) row = false ∧
        w' = w.setDb (w.db.insert i row)
  -- nothing is said of the answer to a commit that was applied
  | .commit, w, r, w' => (∃ e, r = .error e ∧ w' = w.setDb (w.db.discard i)) ∨
      w' = w.setDb (w.db.commit i)
  | .rollback, w, _, w' => w' = w.setDb (w.db.discard i)
  | .cacheAccount a, w, r, w' =>
      r = ((w.inner (replica i)).accounts.lookup a.accountId).isSome ∧
        w' = if r then w else w.enter (replica i) i a

theorem hasAccountId_iff {rows : List AccountRow} {id : String} :
    hasAccountId rows id = true ↔ Inserts.HasKey (·.accountId) rows id := by
  unfold hasAccountId Inserts.HasKey
  simp [List.any_eq_true]

theorem orphan_iff {rows : List AccountRow} {row : AccountRow} :
    orphan rows row = false ↔ Inserts.Refers (·.accountId) (·.parentId) rows row := by
  unfold orphan Inserts.Refers
  cases hp : row.parentId with
  | none => simp [hp]
  | some p => simp [hp, ← hasAccountId_iff, or_iff_not_imp_left]

/-! ## 2. What a statement keeps -/

/-- The call inserts the row, if it passes `validate`. -/
def AccountCall.Inserts (c : AccountCall) (row : AccountRow) : Prop :=
  ∃ r, validate c.2 = .ok r ∧ row = (newAccount c.1 c.2 r.1).row

/-- **The invariant of concurrent calls.** -/
structure AccountInv (calls : Nat → AccountCall) (base : List AccountRow) (w : AccountWorld) :
    Prop where
  start : w.db.base = base
  sound : Inserts.Sound (·.accountId) (·.parentId) w.db
  asked : ∀ p ∈ w.db.inserted, (calls p.1).Inserts p.2
  cached : ∀ p id, ((w.inner p).accounts.lookup id).isSome = true →
    Inserts.HasKey (·.accountId) base id ∨
      ∃ q ∈ w.db.log, q.1 ∈ w.cachedBy ∧ q.2.accountId = id

/-- What session `i` may rely on. -/
structure AccountRely (i : Nat) (w w' : AccountWorld) : Prop where
  db : Inserts.Frame i w.db w'.db
  cachedBy : i ∈ w'.cachedBy ↔ i ∈ w.cachedBy
  inner : ∀ p id a, (w.inner p).accounts.lookup id = some a →
    (w'.inner p).accounts.lookup id = some a

theorem AccountRely.refl (i : Nat) (w : AccountWorld) : AccountRely i w w :=
  ⟨Inserts.Frame.refl i w.db, Iff.rfl, fun _ _ _ h => h⟩

theorem AccountRely.trans {i : Nat} {w w' w'' : AccountWorld} (h : AccountRely i w w')
    (h' : AccountRely i w' w'') : AccountRely i w w'' :=
  ⟨h.db.trans h'.db, h'.cachedBy.trans h.cachedBy,
    fun p id a ha => h'.inner p id a (h.inner p id a ha)⟩

section Statements

variable {calls : Nat → AccountCall} {replica : Nat → Nat} {base : List AccountRow} {i j : Nat}
  {w w' : AccountWorld} {o : AccountStmt} {r : AccountReply o}

theorem accountExec_change (he : AccountExec replica i o w r w') :
    Inserts.Change (·.accountId) (·.parentId) i w.db w'.db := by
  cases o with
  | begin =>
    rcases he with ⟨_, _, rfl⟩ | ⟨_, rfl⟩
    · exact .keep
    · exact .discard
  | insertAccount row =>
    rcases he with ⟨_, _, rfl⟩ | ⟨_, _, rfl⟩ | ⟨_, hfree, hparent, rfl⟩
    · exact .keep
    · exact .keep
    · exact .insert row hfree (orphan_iff.mp hparent)
  | commit =>
    rcases he with ⟨_, _, rfl⟩ | rfl
    · exact .discard
    · exact .commit
  | rollback => rw [he]; exact .discard
  | cacheAccount a =>
    obtain ⟨_, rfl⟩ := he
    split
    · exact .keep
    · exact .keep

/-- Only an insert brings a row. -/
theorem accountExec_inserted (he : AccountExec replica i o w r w') {p : Nat × AccountRow}
    (hp : p ∈ w'.db.inserted) :
    p ∈ w.db.inserted ∨ ∃ row, o = .insertAccount row ∧ p = (i, row) := by
  cases o with
  | begin =>
    rcases he with ⟨_, _, rfl⟩ | ⟨_, rfl⟩
    · exact Or.inl hp
    · exact Or.inl (Inserts.inserted_discard w.db hp)
  | insertAccount row =>
    rcases he with ⟨_, _, rfl⟩ | ⟨_, _, rfl⟩ | ⟨_, _, _, rfl⟩
    · exact Or.inl hp
    · exact Or.inl hp
    · rcases List.mem_append.mp hp with hp | hp
      · exact Or.inl (List.mem_append_left _ hp)
      · rcases List.mem_append.mp hp with hp | hp
        · exact Or.inl (List.mem_append_right _ hp)
        · exact Or.inr ⟨row, rfl, List.mem_singleton.mp hp⟩
  | commit =>
    rcases he with ⟨_, _, rfl⟩ | rfl
    · exact Or.inl (Inserts.inserted_discard w.db hp)
    · exact Or.inl (Inserts.inserted_commit w.db hp)
  | rollback =>
    rw [he] at hp
    exact Or.inl (Inserts.inserted_discard w.db hp)
  | cacheAccount a =>
    obtain ⟨_, rfl⟩ := he
    split at hp
    · exact Or.inl hp
    · exact Or.inl hp

/-- An account enters a map only under a key that is not there. -/
theorem accountExec_maps (he : AccountExec replica i o w r w') :
    (w'.inner = w.inner ∧ w'.cachedBy = w.cachedBy) ∨
      ∃ a, o = .cacheAccount a ∧ (w.inner (replica i)).accounts.lookup a.accountId = none ∧
        w' = w.enter (replica i) i a := by
  cases o with
  | begin =>
    rcases he with ⟨_, _, rfl⟩ | ⟨_, rfl⟩
    · exact Or.inl ⟨rfl, rfl⟩
    · exact Or.inl ⟨rfl, rfl⟩
  | insertAccount row =>
    rcases he with ⟨_, _, rfl⟩ | ⟨_, _, rfl⟩ | ⟨_, _, _, rfl⟩
    · exact Or.inl ⟨rfl, rfl⟩
    · exact Or.inl ⟨rfl, rfl⟩
    · exact Or.inl ⟨rfl, rfl⟩
  | commit =>
    rcases he with ⟨_, _, rfl⟩ | rfl
    · exact Or.inl ⟨rfl, rfl⟩
    · exact Or.inl ⟨rfl, rfl⟩
  | rollback => rw [he]; exact Or.inl ⟨rfl, rfl⟩
  | cacheAccount a =>
    obtain ⟨hr, hw'⟩ := he
    cases hknown : (w.inner (replica i)).accounts.lookup a.accountId with
    | some b =>
      rw [hr, hknown] at hw'
      exact Or.inl ⟨by rw [hw']; rfl, by rw [hw']; rfl⟩
    | none =>
      rw [hr, hknown] at hw'
      exact Or.inr ⟨a, rfl, hknown, hw'⟩

theorem lookup_enter {p i : Nat} {a : Account} {q : Nat} {id : String} :
    (((w.enter p i a).inner q).accounts.lookup id) =
      if q = p ∧ id = a.accountId then some a else (w.inner q).accounts.lookup id := by
  unfold AccountWorld.enter
  by_cases hq : q = p
  · subst hq
    by_cases hid : id = a.accountId
    · subst hid
      simp
    · simp [hid, AList.lookup_insert_ne hid]
  · simp [hq]

/-- **A statement of one session lies within the rely of every other.** -/
theorem accountExec_frame (hij : i ≠ j) (he : AccountExec replica i o w r w') :
    AccountRely j w w' := by
  refine ⟨(accountExec_change he).frame hij, ?_, ?_⟩
  · rcases accountExec_maps he with ⟨_, hby⟩ | ⟨a, _, _, rfl⟩
    · rw [hby]
    · simp [AccountWorld.enter, Ne.symm hij]
  · intro p id b hb
    rcases accountExec_maps he with ⟨hinner, _⟩ | ⟨a, _, hfree, rfl⟩
    · rw [hinner]
      exact hb
    · rw [lookup_enter, if_neg]
      · exact hb
      · rintro ⟨rfl, rfl⟩
        rw [hfree] at hb
        cases hb

/-- **What every statement keeps**, if its session inserts the row its call asks for, and enters in
    the map what it has committed. -/
theorem accountExec_inv (he : AccountExec replica i o w r w')
    (hrow : ∀ row, o = .insertAccount row → (calls i).Inserts row)
    (haccount : ∀ a, o = .cacheAccount a → (i, a.row) ∈ w.db.log) (h : AccountInv calls base w) :
    AccountInv calls base w' := by
  have hchange := accountExec_change he
  obtain ⟨hbase, hlog⟩ := hchange.grows
  refine ⟨hbase.trans h.start, h.sound.change hchange, fun p hp => ?_, ?_⟩
  · rcases accountExec_inserted he hp with hp | ⟨row, ho, rfl⟩
    · exact h.asked p hp
    · exact hrow row ho
  · intro p id hid
    rcases accountExec_maps he with ⟨hinner, hby⟩ | ⟨a, rfl, _, rfl⟩
    · rw [hinner] at hid
      refine (h.cached p id hid).imp_right fun hq => ?_
      obtain ⟨q, hq, hqby, hkey⟩ := hq
      exact ⟨q, hlog.subset hq, by rw [hby]; exact hqby, hkey⟩
    · rw [lookup_enter] at hid
      by_cases hown : p = replica i ∧ id = a.accountId
      · exact Or.inr ⟨(i, a.row), haccount a rfl, by simp [AccountWorld.enter], hown.2.symm⟩
      · rw [if_neg hown] at hid
        refine (h.cached p id hid).imp_right fun hq => ?_
        obtain ⟨q, hq, hqby, hkey⟩ := hq
        exact ⟨q, hq, List.mem_append_left _ hqby, hkey⟩

end Statements

/-! ## 3. What a call answers -/

/-- **Why a call that passes `validate` is refused**: its id is in the table; a statement before
    the commit failed; or the commit failed, and then nothing is said of the row. -/
inductive AccountRefusal (i : Nat) (id : String) (w : AccountWorld) : String → Prop where
  | taken (none : w.db.committed i = []) (there : Inserts.HasKey (·.accountId) w.db.table id) :
      AccountRefusal i id w s!"account already exists: {id}"
  | failed (context e : String) (before : context = "begin tx" ∨ context = "insert")
      (none : w.db.committed i = []) : AccountRefusal i id w s!"create_account: {context}: {e}"
  | unknown (e : String) : AccountRefusal i id w s!"create_account: commit: {e}"

/-- **What a call is told**, on session `i` of replica `p`, and what holds of the rows then. -/
inductive AccountAnswer (c : AccountCall) (p i : Nat) (w : AccountWorld) :
    Except String Account → Prop where
  | created (r : String × AssetClass) (valid : validate c.2 = .ok r)
      (committed : (i, (newAccount c.1 c.2 r.1).row) ∈ w.db.log)
      (entered : (w.inner p).accounts.lookup c.accountId = some (newAccount c.1 c.2 r.1)) :
      AccountAnswer c p i w (.ok (newAccount c.1 c.2 r.1))
  | invalid (e : String) (invalid : validate c.2 = .error e) (none : w.db.committed i = []) :
      AccountAnswer c p i w (.error e)
  | refused (e : String) (valid : c.Valid) (why : AccountRefusal i c.accountId w e) :
      AccountAnswer c p i w (.error e)

/-- Session `i` has committed nothing, and has not been answered. -/
def Uncommitted (i : Nat) (w : AccountWorld) : Prop :=
  w.db.committed i = [] ∧ i ∉ w.cachedBy

/-- ... and its open transaction holds the rows. -/
def Holding (i : Nat) (rows : List AccountRow) (w : AccountWorld) : Prop :=
  w.db.own i = rows.map (Prod.mk i) ∧ Uncommitted i w

/-- Session `i` has committed the row, and has not been answered. -/
def Committed (i : Nat) (row : AccountRow) (w : AccountWorld) : Prop :=
  (i, row) ∈ w.db.log ∧ i ∉ w.cachedBy

section Stability

variable {i : Nat}

theorem stable_uncommitted : Stable (AccountRely i) (Uncommitted i) :=
  fun _ _ hw hR => ⟨hR.db.committed.trans hw.1, fun hby => hw.2 (hR.cachedBy.mp hby)⟩

theorem stable_holding (rows : List AccountRow) : Stable (AccountRely i) (Holding i rows) :=
  fun w w' hw hR => ⟨hR.db.own.trans hw.1, stable_uncommitted w w' hw.2 hR⟩

theorem stable_rowCommitted (row : AccountRow) : Stable (AccountRely i) (Committed i row) :=
  fun _ _ hw hR => ⟨hR.db.log.subset hw.1, fun hby => hw.2 (hR.cachedBy.mp hby)⟩

theorem stable_there (id : String) : Stable (AccountRely i) fun w =>
    Inserts.HasKey (·.accountId) w.db.table id :=
  fun _ _ hw hR => hw.mono hR.db.table

theorem stable_refusal (id e : String) :
    Stable (AccountRely i) fun w => AccountRefusal i id w e := by
  intro w w' hw hR
  cases hw with
  | taken none there =>
    exact .taken (hR.db.committed.trans none) (stable_there id w w' there hR)
  | failed context e before none => exact .failed context e before (hR.db.committed.trans none)
  | unknown e => exact .unknown e

theorem AccountRefusal.discard {id e : String} {w : AccountWorld} (h : AccountRefusal i id w e) :
    AccountRefusal i id (w.setDb (w.db.discard i)) e := by
  cases h with
  | taken none there => exact .taken none there
  | failed context e before none => exact .failed context e before none
  | unknown e => exact .unknown e

end Stability

/-! ## 4. The scripts -/

section Call

variable {calls : Nat → AccountCall} {replica : Nat → Nat} {base : List AccountRow} {i : Nat}
  {α : Type}

variable (calls replica base i) in
/-- A script of session `i` among the calls: it keeps the invariant, and what it returns meets
    `Q`. -/
abbrev AccountSteps (P : AccountWorld → Prop) (p : Script AccountStmt AccountReply α)
    (Q : α → AccountWorld → Prop) : Prop :=
  Triple (AccountRely i) (AccountInv calls base) (AccountExec replica i) P p Q

/-- A statement: what is known after it. -/
theorem issueAccount_spec {P : AccountWorld → Prop} {o : AccountStmt}
    {K : AccountReply o → AccountWorld → Prop} (hP : Stable (AccountRely i) P)
    (hrow : ∀ row, o = .insertAccount row → (calls i).Inserts row)
    (haccount : ∀ a, o = .cacheAccount a → ∀ w, P w → (i, a.row) ∈ w.db.log)
    (hK : ∀ r, Stable (AccountRely i) (K r))
    (h : ∀ w r w', P w → AccountInv calls base w → AccountExec replica i o w r w' → K r w') :
    AccountSteps calls replica base i P (issueAccount o) K :=
  Triple.perform hP (fun w r w' hw hI he =>
    ⟨accountExec_inv he hrow (fun a ha => haccount a ha w hw) hI, h w r w' hw hI he⟩) hK

/-- `map_err` changes the text of an error only. -/
theorem accountQuery_spec (context : String) {P : AccountWorld → Prop}
    {p : Script AccountStmt AccountReply (Except String α)}
    {M Q : Except String α → AccountWorld → Prop}
    (h : AccountSteps calls replica base i P p M) (hM : ∀ r, Stable (AccountRely i) (M r))
    (hok : ∀ a w, M (.ok a) w → Q (.ok a) w)
    (herr : ∀ e w, M (.error e) w → Q (.error s!"create_account: {context}: {e}") w) :
    AccountSteps calls replica base i P (accountQuery context p).run Q := by
  refine Triple.bind (AccountRely.refl i) h fun r => Triple.ret _ fun w w' hw hR => ?_
  have hw' := hM r w w' hw hR
  cases r with
  | ok a => exact hok a w' hw'
  | error e => exact herr e w' hw'

theorem accountBegin_spec (id : String) : AccountSteps calls replica base i (Uncommitted i)
    (accountQuery "begin tx" (issueAccount .begin)).run
    fun x w => match x with
      | .ok () => Holding i [] w
      | .error e => AccountRefusal i id w e := by
  let M : Except String Unit → AccountWorld → Prop := fun r w => match r with
    | .ok () => Holding i [] w
    | .error _ => Uncommitted i w
  have hM : ∀ r, Stable (AccountRely i) (M r) := by
    intro r
    cases r with
    | ok u => exact stable_holding []
    | error e => exact stable_uncommitted
  refine accountQuery_spec "begin tx" (M := M) (issueAccount_spec stable_uncommitted
    (fun row ho => by cases ho) (fun a ho => by cases ho) hM fun w r w' hw hI he => ?_) hM
    (fun _ _ hw => hw) fun e w hw => .failed "begin tx" e (Or.inl rfl) hw.1
  rcases he with ⟨e, rfl, rfl⟩ | ⟨rfl, rfl⟩
  · exact hw
  · exact ⟨Inserts.own_discard w.db, hw⟩

/-- The insert adds the row to the transaction, or the key is in the table. -/
theorem accountInsert_spec {row : AccountRow} (hrow : (calls i).Inserts row) :
    AccountSteps calls replica base i (Holding i [])
      (accountQuery "insert" (issueAccount (.insertAccount row))).run
      fun x w => match x with
        | .ok n => if n = 0 then Uncommitted i w ∧
            Inserts.HasKey (·.accountId) w.db.table row.accountId else Holding i [row] w
        | .error e => AccountRefusal i row.accountId w e := by
  let M : Except String Nat → AccountWorld → Prop := fun r w => match r with
    | .ok n => if n = 0 then Uncommitted i w ∧
        Inserts.HasKey (·.accountId) w.db.table row.accountId else Holding i [row] w
    | .error _ => Uncommitted i w
  have hM : ∀ r, Stable (AccountRely i) (M r) := by
    intro r
    cases r with
    | ok n =>
      by_cases hn : n = 0
      · simp only [M, hn, if_true]
        exact stable_uncommitted.and (stable_there _)
      · simp only [M, hn, if_false]
        exact stable_holding [row]
    | error e => exact stable_uncommitted
  refine accountQuery_spec "insert" (M := M) (issueAccount_spec (stable_holding [])
    (fun _ ho => by cases ho; exact hrow) (fun a ho => by cases ho) hM fun w r w' hw hI he => ?_) hM
    (fun _ _ hw => hw) fun e w hw => .failed "insert" e (Or.inr rfl) hw.1
  obtain ⟨hown, hun⟩ := hw
  rcases he with ⟨e, rfl, rfl⟩ | ⟨rfl, hthere, rfl⟩ | ⟨rfl, _, _, rfl⟩
  · exact hun
  · refine ⟨hun, ?_⟩
    have hvisible : w'.db.visible i = w'.db.table := by
      unfold Inserts.Db.visible
      rw [hown]
      exact List.append_nil _
    rw [hvisible] at hthere
    exact hasAccountId_iff.mp hthere
  · refine ⟨?_, hun⟩
    show (w.db.insert i row).own i = _
    rw [Inserts.own_insert, hown]
    rfl

/-- A transaction that is dropped leaves a refusal what it is. -/
theorem dropTx_spec {P : AccountWorld → Prop} {p : AccountDb α} {K : α → AccountWorld → Prop}
    (id : String) (hK : ∀ a, Stable (AccountRely i) (K a))
    (h : AccountSteps calls replica base i P p.run fun x w => match x with
      | .ok a => K a w
      | .error e => AccountRefusal i id w e) :
    AccountSteps calls replica base i P (dropTx p).run fun x w => match x with
      | .ok a => K a w
      | .error e => AccountRefusal i id w e := by
  refine Triple.bind (AccountRely.refl i) h fun r => ?_
  cases r with
  | ok a => exact Triple.ret _ fun w w' hw hR => hK a w w' hw hR
  | error e =>
    refine Triple.bind (AccountRely.refl i) (M := fun _ w => AccountRefusal i id w e)
      (issueAccount_spec (stable_refusal id e) (fun row ho => by cases ho)
        (fun a ho => by cases ho) (fun _ => stable_refusal id e) fun w r w' hw hI he => ?_)
      fun _ => Triple.ret _ fun w w' hw hR => stable_refusal id e w w' hw hR
    rw [he]
    exact AccountRefusal.discard hw

theorem accountCommit_spec (id : String) (row : AccountRow) :
    AccountSteps calls replica base i (Holding i [row])
      (accountQuery "commit" (issueAccount .commit)).run
      fun x w => match x with
        | .ok () => Committed i row w
        | .error e => AccountRefusal i id w e := by
  let M : Except String Unit → AccountWorld → Prop := fun r w => match r with
    | .ok () => Committed i row w
    | .error _ => True
  have hM : ∀ r, Stable (AccountRely i) (M r) := by
    intro r
    cases r with
    | ok u => exact stable_rowCommitted row
    | error e => exact Stable.const True
  refine accountQuery_spec "commit" (M := M) (issueAccount_spec (stable_holding [row])
    (fun _ ho => by cases ho) (fun a ho => by cases ho) hM fun w r w' hw hI he => ?_) hM
    (fun _ _ hw => hw) fun e w _ => .unknown e
  rcases he with ⟨e, rfl, rfl⟩ | rfl
  · trivial
  · cases r with
    | error e => trivial
    | ok u =>
      refine ⟨List.mem_append_right _ ?_, hw.2.2⟩
      rw [hw.1]
      exact List.mem_singleton_self _

/-- **The transaction of a call commits its row, or the call is refused.** -/
theorem insertAccount_spec {a : Account} (hrow : (calls i).Inserts a.row) :
    AccountSteps calls replica base i (Uncommitted i) (insertAccount a).run
      fun x w => match x with
        | .ok () => Committed i a.row w
        | .error e => AccountRefusal i a.accountId w e := by
  have hrefl := AccountRely.refl i
  refine Triple.run_bind hrefl (accountBegin_spec a.accountId) (fun _ => ?_)
    fun e w w' hw hR => stable_refusal _ e w w' hw hR
  refine Triple.run_bind hrefl (dropTx_spec (K := fun _ w => Holding i [a.row] w) a.accountId
    (fun _ => stable_holding [a.row]) (Triple.run_bind hrefl (accountInsert_spec hrow)
      (fun n => ?_) fun e w w' hw hR => stable_refusal _ e w w' hw hR))
    (fun _ => accountCommit_spec a.accountId a.row)
    fun e w w' hw hR => stable_refusal _ e w w' hw hR
  by_cases hn : n = 0
  · simp only [hn, if_true]
    refine Triple.ret _ fun w w' hw hR => ?_
    have hw' := (stable_uncommitted.and (stable_there a.row.accountId)) w w' hw hR
    exact .taken hw'.1.1 hw'.2
  · simp only [hn, if_false]
    exact Triple.ret _ fun w w' hw hR => stable_holding [a.row] w w' hw hR

/-- **The check of the store's own map never refuses a committed account**: the map has no key that
    was not in the table before. -/
theorem cacheAccount_spec {a : Account} :
    AccountSteps calls replica base i (Committed i a.row) (cacheAccount a).run
      fun x w => x = .ok a ∧ (i, a.row) ∈ w.db.log ∧
        (w.inner (replica i)).accounts.lookup a.accountId = some a := by
  let M : Bool → AccountWorld → Prop := fun known w => known = false ∧ (i, a.row) ∈ w.db.log ∧
    (w.inner (replica i)).accounts.lookup a.accountId = some a
  have hM : ∀ r, Stable (AccountRely i) (M r) := fun r w w' hw hR =>
    ⟨hw.1, hR.db.log.subset hw.2.1, hR.inner _ _ _ hw.2.2⟩
  have hcache : AccountSteps calls replica base i (Committed i a.row)
      (issueAccount (.cacheAccount a)) M := by
    refine issueAccount_spec (stable_rowCommitted a.row) (fun _ ho => by cases ho)
      (fun _ ho w hw => by cases ho; exact hw.1) hM fun w r w' hw hI he => ?_
    obtain ⟨hlog, hby⟩ := hw
    have hfree : (w.inner (replica i)).accounts.lookup a.accountId = none := by
      rw [← Option.not_isSome_iff_eq_none]
      intro hknown
      rcases hI.cached _ _ hknown with hbase | ⟨q, hq, hqby, hkey⟩
      · rw [← hI.start] at hbase
        exact hI.sound.not_base hlog hbase
      · obtain rfl := hI.sound.one_writer hq hlog hkey
        exact hby hqby
    obtain ⟨hr, hw'⟩ := he
    rw [hfree, Option.isSome_none] at hr
    simp only [hr, Bool.false_eq_true, if_false] at hw'
    subst hw'
    refine ⟨hr, hlog, ?_⟩
    rw [lookup_enter, if_pos ⟨rfl, rfl⟩]
  refine Triple.run_bind (AccountRely.refl i) (M := fun x w => ∃ known, x = .ok known ∧ M known w)
    ?_ (fun known => ?_) fun e w w' hw hR => ?_
  · exact Triple.bind (AccountRely.refl i) hcache fun known => Triple.ret _ fun w w' hw hR =>
      ⟨known, rfl, hM known w w' hw hR⟩
  · intro w hw
    obtain ⟨_, hok, hknown⟩ := hw
    cases hok
    obtain rfl : known = false := hknown.1
    refine Triple.ret (P := M false) _ (fun w w' hw hR => ?_) w hknown
    exact ⟨rfl, (hM false w w' hw hR).2⟩
  · obtain ⟨_, hok, _⟩ := hw
    cases hok

/-- **What a call answers**, whatever the other calls do in between. -/
theorem createAccountPool_spec : AccountSteps calls replica base i (Uncommitted i)
    (createAccountPool (calls i).1 (calls i).2).run
    fun x w => AccountAnswer (calls i) (replica i) i w x := by
  cases hv : validate (calls i).2 with
  | error e =>
    have hrun : (createAccountPool (calls i).1 (calls i).2).run = .ret (.error e) := by
      unfold createAccountPool
      rw [hv]
      rfl
    rw [hrun]
    exact Triple.ret _ fun w w' hw hR => .invalid e hv (stable_uncommitted w w' hw hR).1
  | ok r =>
    let a := newAccount (calls i).1 (calls i).2 r.1
    have hrun : (createAccountPool (calls i).1 (calls i).2).run =
        (insertAccount a >>= fun _ => cacheAccount a).run := by
      unfold createAccountPool
      rw [hv]
      rfl
    rw [hrun]
    refine Triple.run_bind (AccountRely.refl i) (insertAccount_spec ⟨r, hv, rfl⟩) (fun _ => ?_)
      fun e w w' hw hR => .refused e ⟨r, hv⟩ (stable_refusal _ e w w' hw hR)
    refine cacheAccount_spec.imp (fun _ hw => hw) fun x w hw => ?_
    obtain ⟨rfl, hlog, hentered⟩ := hw
    exact .created r hv hlog hentered

end Call

/-! ## 5. Every interleaving -/

/-- The constraints hold of the rows at the start, and the maps have no keys but theirs. -/
structure ConsistentStart (base : List AccountRow) (inner : Nat → LedgerState) : Prop where
  keys : (base.map (·.accountId)).Nodup
  parents : ∀ row ∈ base, orphan base row = false
  maps : ∀ p id, ((inner p).accounts.lookup id).isSome = true → hasAccountId base id = true

/-- **Replicas that have hydrated their maps start consistently.** -/
theorem ConsistentStart.of_mirrors {t : Tables} {inner : Nat → LedgerState}
    (hkeys : (t.accounts.map (·.accountId)).Nodup)
    (hparents : ∀ row ∈ t.accounts, orphan t.accounts row = false)
    (hm : ∀ p, Mirrors t (inner p)) : ConsistentStart t.accounts inner where
  keys := hkeys
  parents := hparents
  maps p id hid := by
    rw [(hm p).accounts, Option.isSome_map, Option.isSome_iff_exists] at hid
    obtain ⟨row, hrow⟩ := hid
    obtain ⟨hmem, hkey⟩ := rowAt_mem hrow
    exact hasAccountId_iff.mpr ⟨row, hmem, hkey⟩

/-- Thread `i` runs call `i`; nothing has been issued yet. -/
def startAccounts (calls : Nat → AccountCall) (base : List AccountRow)
    (inner : Nat → LedgerState) :
    Script.Config AccountWorld Nat AccountStmt AccountReply (Except String Account) :=
  ⟨.start base inner, fun i => (createAccountPool (calls i).1 (calls i).2).run⟩

section Races

variable (calls : Nat → AccountCall) (replica : Nat → Nat) {base : List AccountRow}
  {inner : Nat → LedgerState}
  {c : Script.Config AccountWorld Nat AccountStmt AccountReply (Except String Account)}

theorem startAccounts_inv (h : ConsistentStart base inner) :
    AccountInv calls base (AccountWorld.start base inner) where
  start := rfl
  sound := .start h.keys fun row hrow => orphan_iff.mp (h.parents row hrow)
  asked _ hp := absurd hp List.not_mem_nil
  cached p id hid := Or.inl (hasAccountId_iff.mp (h.maps p id hid))

/-- **Every reachable state** keeps the invariant, and every call that has ended was told what
    holds. -/
theorem accounts_reached (h : ConsistentStart base inner)
    (hr : Reach (AccountExec replica) (startAccounts calls base inner) c) :
    AccountInv calls base c.state ∧ ∀ i x, (c.threads i).result = some x →
      AccountAnswer (calls i) (replica i) i c.state x := by
  have hall := interleaving_sound (Q := fun i x w => AccountAnswer (calls i) (replica i) i w x)
    (fun i => AccountRely.refl i) (fun i _ _ _ => AccountRely.trans)
    (fun i j hij o s r s' => accountExec_frame hij) (startAccounts_inv calls h)
    (fun i => createAccountPool_spec _ ⟨rfl, List.not_mem_nil⟩) hr
  exact ⟨hall.1, fun i x hx => (hall.2 i).result (AccountRely.refl i) hx⟩

variable {calls replica}

/-- A call that was told `Ok` created the account it asked for, and a read of its row has what the
    call returned. -/
theorem AccountAnswer.of_ok {i p : Nat} {w : AccountWorld} {a : Account}
    (h : AccountAnswer (calls i) p i w (.ok a)) :
    a.accountId = (calls i).accountId ∧ (i, a.row) ∈ w.db.log ∧ a.row.record = a := by
  cases h with
  | created r valid committed entered =>
    refine ⟨rfl, committed, ?_⟩
    unfold newAccount Account.row AccountRow.record
    simp only [secs_nowIso]

/-- Two calls that were told `Ok` created two accounts. -/
theorem created_once {w : AccountWorld} (hI : AccountInv calls base w) {i j p q : Nat}
    {a b : Account} (ha : AccountAnswer (calls i) p i w (.ok a))
    (hb : AccountAnswer (calls j) q j w (.ok b)) (hid : a.accountId = b.accountId) : i = j := by
  obtain ⟨_, hlog, _⟩ := ha.of_ok
  obtain ⟨_, hlog', _⟩ := hb.of_ok
  exact congrArg Prod.fst (hI.sound.one_writer hlog hlog' hid)

/-- **Concurrent calls of `create_account`** on any number of replicas, in any order of their
    statements, with any of them failing and commits whose answer is lost: the ids of the table are
    distinct and no parent is missing; every row was there at the start or is that of a valid call;
    every call is told what holds; an account that was returned with `Ok` is read back as it was
    returned; and of the calls with one id at most one is told `Ok`. -/
theorem account_races_sound (hstart : ConsistentStart base inner)
    (hr : Reach (AccountExec replica) (startAccounts calls base inner) c) :
    (c.state.db.table.map (·.accountId)).Nodup ∧
      (∀ row ∈ c.state.db.table, orphan c.state.db.table row = false) ∧
      (∃ added, c.state.db.table = base ++ added ∧
        ∀ row ∈ added, ∃ i, (calls i).Inserts row) ∧
      (∀ i x, (c.threads i).result = some x →
        AccountAnswer (calls i) (replica i) i c.state x) ∧
      (∀ i a, (c.threads i).result = some (.ok a) →
        getAccountDb (.ok (rowAt AccountRow.accountId c.state.db.table a.accountId)) = some a) ∧
      ∀ i j a b, (c.threads i).result = some (.ok a) → (c.threads j).result = some (.ok b) →
        a.accountId = b.accountId → i = j := by
  obtain ⟨hI, hanswers⟩ := accounts_reached calls replica hstart hr
  have hkeys : (c.state.db.table.map (·.accountId)).Nodup :=
    hI.sound.unique.sublist ((List.sublist_append_left _ _).map _)
  refine ⟨hkeys, ?_, ?_, hanswers, fun i a ha => ?_, fun i j a b ha hb =>
    created_once hI (hanswers i _ ha) (hanswers j _ hb)⟩
  · exact fun row hrow => orphan_iff.mpr (hI.sound.closed row hrow)
  · refine ⟨c.state.db.log.map Prod.snd, ?_, fun row hrow => ?_⟩
    · unfold Inserts.Db.table
      rw [hI.start]
    · obtain ⟨p, hp, rfl⟩ := List.mem_map.mp hrow
      exact ⟨p.1, hI.asked p (List.mem_append_left _ hp)⟩
  · obtain ⟨_, hlog, hrecord⟩ := (hanswers i _ ha).of_ok
    have hrow : rowAt AccountRow.accountId c.state.db.table a.row.accountId = some a.row :=
      rowAt_of_mem hkeys (List.mem_append_right _ (List.mem_map_of_mem hlog))
    show (rowAt AccountRow.accountId c.state.db.table a.row.accountId).map (·.record) = some a
    rw [hrow, Option.map_some, hrecord]

/-- **Of the calls that ask for one new id, exactly one creates the account**, once all of them have
    ended and none was told that a statement failed. -/
theorem one_creator (hstart : ConsistentStart base inner)
    (hr : Reach (AccountExec replica) (startAccounts calls base inner) c) {id : String}
    (hnew : hasAccountId base id = false)
    (hasked : ∃ i, (calls i).Valid ∧ (calls i).accountId = id)
    (hended : ∀ i, (calls i).Valid → (calls i).accountId = id →
      ∃ x, (c.threads i).result = some x ∧
        ∀ context e : String, x ≠ .error s!"create_account: {context}: {e}") :
    ∃! i, (calls i).accountId = id ∧ ∃ a, (c.threads i).result = some (.ok a) := by
  obtain ⟨hI, hanswers⟩ := accounts_reached calls replica hstart hr
  -- a call that was refused without a failure was told that the id is there
  have hthere : ∀ i, (calls i).Valid → (calls i).accountId = id →
      (∃ a, (c.threads i).result = some (.ok a)) ∨
        c.state.db.committed i = [] ∧ Inserts.HasKey (·.accountId) c.state.db.table id := by
    intro i hvalid hid
    obtain ⟨x, hx, hclean⟩ := hended i hvalid hid
    cases hanswers i x hx with
    | created r valid committed entered => exact Or.inl ⟨_, hx⟩
    | invalid e invalid none =>
      obtain ⟨r, hr⟩ := hvalid
      rw [hr] at invalid
      cases invalid
    | refused e valid why =>
      cases why with
      | taken none there => exact Or.inr ⟨none, hid ▸ there⟩
      | failed context e before none => exact absurd rfl (hclean context e)
      | unknown e => exact absurd rfl (hclean "commit" e)
  have hcreated : ∃ i, (calls i).accountId = id ∧ ∃ a, (c.threads i).result = some (.ok a) := by
    obtain ⟨i, hvalid, hid⟩ := hasked
    rcases hthere i hvalid hid with ha | ⟨_, row, hrow, hkey⟩
    · exact ⟨i, hid, ha⟩
    -- the row with the id is that of a call, and that call was told so
    rcases List.mem_append.mp hrow with hbase | hlog
    · rw [hI.start] at hbase
      have hold : hasAccountId base id = true := hasAccountId_iff.mpr ⟨row, hbase, hkey⟩
      rw [hnew] at hold
      cases hold
    · obtain ⟨⟨j, row⟩, hp, rfl⟩ := List.mem_map.mp hlog
      obtain ⟨r, hr, hrow⟩ := hI.asked _ (List.mem_append_left _ hp)
      have hjd : (calls j).accountId = id := by
        rw [← hkey]
        exact (congrArg AccountRow.accountId hrow).symm
      rcases hthere j ⟨r, hr⟩ hjd with ha | ⟨hnone, _⟩
      · exact ⟨j, hjd, ha⟩
      · have hmem : (j, row) ∈ c.state.db.committed j := by
          unfold Inserts.Db.committed
          exact List.mem_filter.mpr ⟨hp, by simp⟩
        rw [hnone] at hmem
        cases hmem
  obtain ⟨i, hid, a, ha⟩ := hcreated
  refine ⟨i, ⟨hid, a, ha⟩, fun j hj => ?_⟩
  obtain ⟨hjd, b, hb⟩ := hj
  refine created_once hI (hanswers j _ hb) (hanswers i _ ha) ?_
  rw [(hanswers j _ hb).of_ok.1, (hanswers i _ ha).of_ok.1, hid, hjd]

end Races

/-! ## 6. A race -/

/-- The statement without a failure but that of a text with U+0000 or of a constraint; `none` while
    it has to wait. -/
def accountExec (replica : Nat → Nat) (i : Nat) :
    (o : AccountStmt) → AccountWorld → Option (AccountReply o × AccountWorld)
  | .begin, w => some (.ok (), w.setDb (w.db.discard i))
  | .insertAccount row, w =>
    if row.hasNul then some (.error "invalid byte sequence for encoding \"UTF8\": 0x00", w)
    else if hasAccountId (w.db.visible i) row.accountId then some (.ok 0, w)
    else if hasAccountId (w.db.opened.map Prod.snd) row.accountId then none
    else if orphan (w.db.visible i) row then
      some (.error "violates foreign key constraint \"accounts_parent_id_fkey\"", w)
    else some (.ok 1, w.setDb (w.db.insert i row))
  | .commit, w => some (.ok (), w.setDb (w.db.commit i))
  | .rollback, w => some ((), w.setDb (w.db.discard i))
  | .cacheAccount a, w =>
    if ((w.inner (replica i)).accounts.lookup a.accountId).isSome then some (true, w)
    else some (false, w.enter (replica i) i a)

/-- **The executable run is a run of the database.** -/
theorem accountExec_sound (replica : Nat → Nat) (i : Nat) (o : AccountStmt) (w : AccountWorld)
    (r : AccountReply o) (w' : AccountWorld) (h : accountExec replica i o w = some (r, w')) :
    AccountExec replica i o w r w' := by
  cases o with
  | begin => cases h; exact Or.inr ⟨rfl, rfl⟩
  | insertAccount row =>
    simp only [accountExec] at h
    split at h
    · cases h
      exact Or.inl ⟨_, rfl, rfl⟩
    split at h
    · rename_i hkey
      cases h
      exact Or.inr (Or.inl ⟨rfl, hkey, rfl⟩)
    rename_i hkey
    split at h
    · cases h
    rename_i hwait
    split at h
    · cases h
      exact Or.inl ⟨_, rfl, rfl⟩
    rename_i hparent
    cases h
    refine Or.inr (Or.inr ⟨rfl, ⟨fun hhas => ?_, fun p hp heq => ?_⟩,
      Bool.eq_false_iff.mpr hparent, rfl⟩)
    · exact hkey (hasAccountId_iff.mpr (hhas.mono (Inserts.table_visible w.db i)))
    · exact hwait (hasAccountId_iff.mpr ⟨p.2, List.mem_map_of_mem hp, heq⟩)
  | commit => cases h; exact Or.inr rfl
  | rollback => cases h; rfl
  | cacheAccount a =>
    simp only [accountExec] at h
    split at h
    · rename_i hknown
      cases h
      exact ⟨hknown.symm, rfl⟩
    · rename_i hknown
      cases h
      exact ⟨(Bool.eq_false_iff.mpr hknown).symm, rfl⟩

/-- Two calls ask for the account "acc1", on two replicas; every other call is not valid. -/
def sampleAccountCalls (i : Nat) : AccountCall :=
  (sampleSupply, ⟨some "acc1", ["user_custodial", "user_custodial"].getD i "no_such_type", "BOTH",
    ["first"].getD i "second", none⟩)

/-- Both begin and the second one inserts; the first one waits until it has committed. -/
def sampleAccountRace :
    Script.Config AccountWorld Nat AccountStmt AccountReply (Except String Account) :=
  runSchedule (accountExec id) [0, 1, 1, 0, 1, 0, 0, 1]
    (startAccounts sampleAccountCalls [] fun _ => .new)

theorem sampleAccountStart : ConsistentStart [] fun _ => .new :=
  ⟨List.nodup_nil, fun _ hrow => absurd hrow List.not_mem_nil, fun _ _ hid => by cases hid⟩

theorem sampleAccountReach :
    Reach (AccountExec id) (startAccounts sampleAccountCalls [] fun _ => .new) sampleAccountRace :=
  reach_runSchedule (accountExec_sound id) _ _

theorem sampleAccountResults :
    (sampleAccountRace.threads 0).result = some (.error "account already exists: acc1") ∧
      ∃ a, (sampleAccountRace.threads 1).result = some (.ok a) :=
  ⟨by decide +kernel, _, rfl⟩

/-- The second call has created the account, and the first one was told so. -/
theorem account_races_sound_sample :
    (sampleAccountRace.threads 0).result = some (.error "account already exists: acc1") ∧
      (∃ a, (sampleAccountRace.threads 1).result = some (.ok a)) ∧
      (sampleAccountRace.state.db.table.map (·.accountId)).Nodup ∧
      ∀ a, (sampleAccountRace.threads 1).result = some (.ok a) →
        getAccountDb (.ok (rowAt AccountRow.accountId sampleAccountRace.state.db.table
          a.accountId)) = some a := by
  obtain ⟨hkeys, _, _, _, hread, _⟩ := account_races_sound sampleAccountStart sampleAccountReach
  exact ⟨sampleAccountResults.1, sampleAccountResults.2, hkeys, hread 1⟩

theorem one_creator_sample : ∃! i, (sampleAccountCalls i).accountId = "acc1" ∧
    ∃ a, (sampleAccountRace.threads i).result = some (.ok a) := by
  obtain ⟨hzero, a, hone⟩ := sampleAccountResults
  refine one_creator sampleAccountStart sampleAccountReach rfl
    ⟨0, ⟨("user_custodial", .both), by decide⟩, rfl⟩ fun i hvalid _ => ?_
  have hi : i < 2 := by
    by_contra hlarge
    have hother : sampleAccountCalls i = sampleAccountCalls 2 := by
      obtain ⟨k, rfl⟩ := Nat.exists_eq_add_of_le' (Nat.not_lt.mp hlarge)
      rfl
    obtain ⟨r, hr⟩ := hvalid
    rw [hother] at hr
    cases hr
  interval_cases i
  · refine ⟨_, hzero, fun context e h => ?_⟩
    have hhead := congrArg (fun s : String => s.toList.head?) (Except.error.inj h)
    simp only [String.toList_append, List.append_assoc] at hhead
    cases hhead
  · exact ⟨_, hone, fun context e h => by cases h⟩

/-! ## 7. Calls one after another -/

/-- The store of one session, as the world of many has it for session `i` on replica `p`; no other
    session has an open transaction. -/
structure AccountMirrors (p i : Nat) (s : AccountStore) (w : AccountWorld) : Prop where
  table : w.db.table = s.table
  opened : w.db.opened = s.tx.map (Prod.mk i)
  inner : w.inner p = s.inner

/-- **The statements of the one session are those of a session that is alone.** -/
theorem execAccount_mirrors (indexed : String → Bool) (p i : Nat) (o : AccountStmt)
    (s : AccountStore) (w : AccountWorld) (h : AccountMirrors p i s w) :
    ∃ w', AccountExec (fun _ => p) i o w (execAccount indexed o s).1 w' ∧
      AccountMirrors p i (execAccount indexed o s).2 w' := by
  obtain ⟨table, tx, inner⟩ := s
  obtain ⟨htable, hopened, hinner⟩ := h
  simp only at htable hopened hinner
  have hown : w.db.own i = tx.map (Prod.mk i) := by
    unfold Inserts.Db.own
    rw [hopened]
    simp
  have hrest : (w.db.discard i).opened = [] := by
    unfold Inserts.Db.discard
    rw [hopened]
    simp
  have hvisible : w.db.visible i = table ++ tx := by
    unfold Inserts.Db.visible
    rw [htable, hown]
    simp
  cases o with
  | begin => exact ⟨_, Or.inr ⟨rfl, rfl⟩, htable, hrest, hinner⟩
  | insertAccount row =>
    rcases execInsert_cases indexed row ⟨table, tx, inner⟩ with
      ⟨e, hinsert, _⟩ | ⟨hinsert, hkey⟩ | ⟨hinsert, hfree, htaken⟩
    · rw [hinsert]
      exact ⟨w, Or.inl ⟨e, rfl, rfl⟩, htable, hopened, hinner⟩
    · rw [hinsert]
      refine ⟨w, Or.inr (Or.inl ⟨rfl, ?_, rfl⟩), htable, hopened, hinner⟩
      rw [hvisible]
      exact hkey
    · rw [hinsert]
      have hnew : ¬ Inserts.HasKey (·.accountId) (table ++ tx) row.accountId := by
        rw [← hasAccountId_iff]
        exact Bool.eq_false_iff.mp hfree
      have hparent : orphan (table ++ tx) row = false := by
        unfold admitted at htaken
        simp only [Bool.and_eq_true, Bool.not_eq_true'] at htaken
        exact htaken.2
      refine ⟨_, Or.inr (Or.inr ⟨rfl, ⟨fun hhas => ?_, fun q hq heq => ?_⟩, ?_, rfl⟩), htable, ?_,
        hinner⟩
      · rw [htable] at hhas
        exact hnew (hhas.mono fun _ => List.mem_append_left _)
      · rw [hopened] at hq
        obtain ⟨row', hrow', rfl⟩ := List.mem_map.mp hq
        exact hnew ⟨row', List.mem_append_right _ hrow', heq⟩
      · rw [hvisible]
        exact hparent
      · show w.db.opened ++ [(i, row)] = (tx ++ [row]).map (Prod.mk i)
        rw [hopened, List.map_append]
        rfl
  | commit =>
    refine ⟨_, Or.inr rfl, ?_, hrest, hinner⟩
    show (w.db.commit i).table = table ++ tx
    rw [Inserts.table_commit, hvisible]
  | rollback => exact ⟨_, rfl, htable, hrest, hinner⟩
  | cacheAccount a =>
    by_cases hknown : (inner.accounts.lookup a.accountId).isSome = true
    · refine ⟨w, ⟨?_, ?_⟩, ?_⟩
      · simp only [execAccount, hknown, if_true, hinner]
      · simp only [execAccount, hknown, if_true]
      · simp only [execAccount, hknown, if_true]
        exact ⟨htable, hopened, hinner⟩
    · refine ⟨w.enter p i a, ⟨?_, ?_⟩, ?_⟩
      · simp only [execAccount, hknown, hinner]
        simp
      · simp only [execAccount, hknown]
        simp
      · simp only [execAccount, hknown]
        refine ⟨htable, hopened, ?_⟩
        simp [AccountWorld.enter, hinner]

/-- **Calls one after another are one of the interleavings.** -/
theorem calls_in_turn (indexed : String → Bool) (calls : Nat → AccountCall) (p n : Nat) :
    ∃ c, Reach (AccountExec fun _ => p) (startAccounts calls [] fun _ => .new) c ∧
      (∀ i, AccountMirrors p i
        (Runs.run (createPool indexed) ((List.range n).map calls) .new) c.state) ∧
      (∀ k < n, (c.threads k).result = some (createPool indexed (calls k)
        (Runs.run (createPool indexed) ((List.range k).map calls) .new)).1) ∧
      ∀ k ≥ n, c.threads k = (createAccountPool (calls k).1 (calls k).2).run := by
  induction n with
  | zero => exact ⟨_, .refl, fun i => ⟨rfl, rfl, rfl⟩, fun k hk => absurd hk (Nat.not_lt_zero k),
      fun k _ => rfl⟩
  | succ n ih =>
    obtain ⟨c, hreach, hmirrors, hdone, hwaits⟩ := ih
    obtain ⟨w, hran, hw⟩ := ran_runWith (execAccount indexed) (execAccount_mirrors indexed p n)
      (p := (createAccountPool (calls n).1 (calls n).2).run) (hmirrors n)
    refine ⟨_, hreach.trans (hran.reach (hwaits n le_rfl)), fun i => ?_, fun k hk => ?_,
      fun k hk => ?_⟩
    · rw [List.range_succ, List.map_append, List.map_singleton, Runs.run_concat]
      have hsettled : (createPool indexed (calls n)
          (Runs.run (createPool indexed) ((List.range n).map calls) .new)).2.Settled :=
        createPool_settled indexed _ (pool_run indexed _).1
      have hempty : w.db.opened = [] := by
        have htx : (Script.runWith (execAccount indexed)
            (createAccountPool (calls n).1 (calls n).2).run
            (Runs.run (createPool indexed) ((List.range n).map calls) .new)).2.tx = [] :=
          hsettled.closed
        rw [hw.opened, htx]
        rfl
      refine ⟨hw.table, ?_, hw.inner⟩
      rw [hempty, hsettled.closed]
      rfl
    · rcases Nat.lt_succ_iff_lt_or_eq.mp hk with hlt | rfl
      · simp only [Function.update_of_ne hlt.ne]
        exact hdone k hlt
      · simp only [Function.update_self]
        rfl
    · have hne : k ≠ n := by omega
      simp only [Function.update_of_ne hne]
      exact hwaits k (by omega)

end LedgerAccounting
