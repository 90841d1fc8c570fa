/-
  File:      LedgerAccounting/Pool/Accounts.lean
  Subject:   `Store::create_account` with a pool, beside the one on the in-memory store.

  With a pool an account is a row: the database has to take its texts, and the primary key and the
  foreign key of `parent_id` decide what is inserted. The in-memory store takes every text, tests
  the key of its map, and the parent nowhere.

  * `createPool_spec`: what a call with a pool answers and leaves.
  * `modes_agree_iff`: when both modes accept the same accounts and no parent is missing.
-/
import LedgerAccounting.Lib.Alone
import LedgerAccounting.Lib.Runs
import LedgerAccounting.Pool.Tables
import LedgerAccounting.Store.Accounts

namespace LedgerAccounting

open Runs Script

/-! ## 1. The statements on the table `accounts` -/

/-- The row `create_account` binds. -/
def Account.row (a : Account) : AccountRow where
  accountId := a.accountId
  typeName := a.typeName
  assetClass := a.assetClass
  label := a.label
  parentId := a.parentId
  status := "ACTIVE"
  createdAt := secs a.createdAt

inductive AccountStmt where
  | begin
  | insertAccount (row : AccountRow)
  | commit
  | rollback
  /-- Not a statement: the store enters the account in its own map, unless its key is there. -/
  | cacheAccount (account : Account)

abbrev AccountReply : AccountStmt → Type
  | .begin => Except String Unit
  | .insertAccount _ => Except String Nat
  | .commit => Except String Unit
  | .rollback => Unit
  | .cacheAccount _ => Bool

/-- The table, the rows of the open transaction, and the `LedgerState` of the store. -/
structure AccountStore where
  table : List AccountRow
  tx : List AccountRow
  inner : LedgerState

def AccountStore.new : AccountStore := ⟨[], [], .new⟩

/-- A row with the id is in the list. -/
def hasAccountId (rows : List AccountRow) (id : String) : Bool :=
  rows.any fun row => row.accountId == id

/-- The row names a parent that is neither a row nor itself. -/
def orphan (rows : List AccountRow) (row : AccountRow) : Bool :=
  row.parentId.any fun p => p != row.accountId && !hasAccountId rows p

/-- The text holds U+0000, which a `TEXT` of the database cannot. -/
def hasNul (text : String) : Bool := text.toList.any fun c => c.toNat == 0

/-- A text that is bound for the row holds U+0000. -/
def AccountRow.hasNul (row : AccountRow) : Bool :=
  [row.accountId, row.typeName, row.assetClass, row.label].any LedgerAccounting.hasNul ||
    row.parentId.any LedgerAccounting.hasNul

/-- The table takes the row, unless its key is there. -/
def admitted (indexed : String → Bool) (rows : List AccountRow) (row : AccountRow) : Bool :=
  !row.hasNul && indexed row.accountId && !orphan rows row

/-- The statements of the one session there is; `indexed` are the texts that fit an entry of the
    primary key's index. Nothing fails but an insert of what the database cannot store or against a
    constraint: `ON CONFLICT (account_id) DO NOTHING` inserts no row, a missing parent is an
    error. -/
def execAccount (indexed : String → Bool) :
    (o : AccountStmt) → AccountStore → AccountReply o × AccountStore
  | .begin, s => (.ok (), { s with tx := [] })
  | .insertAccount row, s =>
    -- the parameters are read before the statement runs
    if row.hasNul then (.error "invalid byte sequence for encoding \"UTF8\": 0x00", s)
    else if hasAccountId (s.table ++ s.tx) row.accountId then (.ok 0, s)
    else if !indexed row.accountId then
      (.error "index row size exceeds btree maximum for index \"accounts_pkey\"", s)
    else if orphan (s.table ++ s.tx) row then
      (.error "violates foreign key constraint \"accounts_parent_id_fkey\"", s)
    else (.ok 1, { s with tx := s.tx ++ [row] })
  | .commit, s => (.ok (), { s with table := s.table ++ s.tx, tx := [] })
  | .rollback, s => ((), { s with tx := [] })
  | .cacheAccount account, s =>
    if (s.inner.accounts.lookup account.accountId).isSome then (true, s)
    else
      (false, { s with inner := { s.inner with
        accounts := s.inner.accounts.insert account.accountId account } })

/-! ## 2. `create_account` -/

abbrev AccountDb (α : Type) := ExceptT String (Script AccountStmt AccountReply) α

/-- A statement of the session. -/
def issueAccount (o : AccountStmt) : Script AccountStmt AccountReply (AccountReply o) := perform o

/-- `map_err` with the text of the context. -/
def accountQuery {α : Type} (context : String)
    (p : Script AccountStmt AccountReply (Except String α)) : AccountDb α :=
  ExceptT.mk (p >>= fun r => pure (r.mapError fun e => s!"create_account: {context}: {e}"))

/-- A transaction that is dropped on an error is rolled back. -/
def dropTx {α : Type} (p : AccountDb α) : AccountDb α :=
  ExceptT.mk (p.run >>= fun r =>
    match r with
    | .ok a => pure (.ok a)
    | .error e => issueAccount .rollback >>= fun _ => pure (.error e))

/-- The transaction of `create_account`. -/
def insertAccount (account : Account) : AccountDb Unit := do
  accountQuery "begin tx" (issueAccount .begin)
  dropTx do
    let rows ← accountQuery "insert" (issueAccount (.insertAccount account.row))
    if rows = 0 then throw s!"account already exists: {account.accountId}"
    else return ()
  accountQuery "commit" (issueAccount .commit)

/-- The store's own map, once the account is in the table. -/
def cacheAccount (account : Account) : AccountDb Account := do
  let known : Bool ← ExceptT.lift (issueAccount (.cacheAccount account))
  if known then throw s!"account already exists: {account.accountId}"
  else return account

/-- `Store::create_account` with a pool. -/
def createAccountPool (sup : Supply) (req : CreateAccountRequest) : AccountDb Account := do
  let (typeName, _) ← ExceptT.mk (pure (validate req))
  let account := newAccount sup req typeName
  insertAccount account
  cacheAccount account

/-! ## 3. Requests one after another -/

/-- A request and what its call draws from outside. -/
abbrev AccountCall := Supply × CreateAccountRequest

/-- The call on the in-memory store. -/
def createMemory (c : AccountCall) (s : LedgerState) : Except String Account × LedgerState :=
  createAccount c.1 c.2 s

/-- The call on the store with a pool. -/
def createPool (indexed : String → Bool) (c : AccountCall) (s : AccountStore) :
    Except String Account × AccountStore :=
  runWith (execAccount indexed) (createAccountPool c.1 c.2).run s

/-- The id of the account the call asks for. -/
def AccountCall.accountId (c : AccountCall) : String := c.2.accountId.getD (c.1.uuid 0)

/-- The request passes `validate`. -/
def AccountCall.Valid (c : AccountCall) : Prop := ∃ r, validate c.2 = .ok r

/-- The database can store what the request names: no U+0000, and an id that its index takes. -/
structure AccountCall.Storable (indexed : String → Bool) (c : AccountCall) : Prop where
  accountId : hasNul c.accountId = false
  label : hasNul c.2.label = false
  parentId : ∀ p, c.2.parentId = some p → hasNul p = false
  indexed : indexed c.accountId = true

/-! ## 4. What one call does -/

/-- The texts of the chart are stored. -/
theorem validate_hasNul {req : CreateAccountRequest} {r : String × AssetClass}
    (h : validate req = .ok r) : hasNul r.1 = false ∧ hasNul req.assetClass = false := by
  obtain ⟨t, ht, hclass, _, htype⟩ := validate_ok h
  constructor
  · have hchart : ∀ t ∈ chart, hasNul t.typeName = false := by decide +kernel
    have hname : t.typeName = req.typeName := by simpa using List.find?_some ht
    rw [htype, ← hname]
    exact hchart t (List.mem_of_find?_eq_some ht)
  · unfold parseAssetClass at hclass
    split at hclass
    · rename_i hfiat
      rw [hfiat]
      decide +kernel
    · rename_i hcrypto
      rw [hcrypto]
      decide +kernel
    · rename_i hboth
      rw [hboth]
      decide +kernel
    · cases hclass

section Call

variable (indexed : String → Bool)

theorem accountQuery_run {α : Type} (context : String)
    (p : Script AccountStmt AccountReply (Except String α)) (s : AccountStore) :
    runWith (execAccount indexed) (accountQuery context p).run s =
      ((runWith (execAccount indexed) p s).1.mapError fun e => s!"create_account: {context}: {e}",
        (runWith (execAccount indexed) p s).2) :=
  runWith_bind (execAccount indexed) p _ s

theorem dropTx_run {α : Type} (p : AccountDb α) (s : AccountStore) :
    runWith (execAccount indexed) (dropTx p).run s =
      match runWith (execAccount indexed) p.run s with
      | (.ok a, t) => (.ok a, t)
      | (.error e, t) => (.error e, { t with tx := [] }) := by
  have hbind : runWith (execAccount indexed) (dropTx p).run s = _ :=
    runWith_bind (execAccount indexed) p.run _ s
  rw [hbind]
  obtain ⟨x, t⟩ := runWith (execAccount indexed) p.run s
  cases x <;> rfl

/-- **An insert is refused, finds its key, or adds the row.** -/
theorem execInsert_cases (row : AccountRow) (s : AccountStore) :
    (∃ e, execAccount indexed (.insertAccount row) s = (.error e, s) ∧
      admitted indexed (s.table ++ s.tx) row = false) ∨
    (execAccount indexed (.insertAccount row) s = (.ok 0, s) ∧
      hasAccountId (s.table ++ s.tx) row.accountId = true) ∨
    (execAccount indexed (.insertAccount row) s = (.ok 1, { s with tx := s.tx ++ [row] }) ∧
      hasAccountId (s.table ++ s.tx) row.accountId = false ∧
      admitted indexed (s.table ++ s.tx) row = true) := by
  unfold admitted
  simp only [execAccount]
  -- the cases in the order in which the database finds them
  cases row.hasNul with
  | true => exact Or.inl ⟨_, rfl, rfl⟩
  | false =>
    cases hasAccountId (s.table ++ s.tx) row.accountId with
    | true => exact Or.inr (Or.inl ⟨rfl, rfl⟩)
    | false =>
      cases indexed row.accountId with
      | false => exact Or.inl ⟨_, rfl, rfl⟩
      | true =>
        cases orphan (s.table ++ s.tx) row with
        | true => exact Or.inl ⟨_, rfl, rfl⟩
        | false => exact Or.inr (Or.inr ⟨rfl, rfl, rfl⟩)

/-- **The transaction inserts the row of a new key that the table takes**, and otherwise errs and
    leaves no trace. -/
theorem insertAccount_run (account : Account) {s : AccountStore} (hs : s.tx = []) :
    (hasAccountId s.table account.accountId = false ∧ admitted indexed s.table account.row = true ∧
      runWith (execAccount indexed) (insertAccount account).run s =
        (.ok (), { s with table := s.table ++ [account.row] })) ∨
    (hasAccountId s.table account.accountId = false →
      admitted indexed s.table account.row = false) ∧
      ∃ e, runWith (execAccount indexed) (insertAccount account).run s = (.error e, s) := by
  obtain ⟨table, tx, inner⟩ := s
  obtain rfl : tx = [] := hs
  have hbegin : execAccount indexed .begin ⟨table, [], inner⟩ = (.ok (), ⟨table, [], inner⟩) := rfl
  have hcases := execInsert_cases indexed account.row ⟨table, [], inner⟩
  have hid : account.row.accountId = account.accountId := rfl
  simp only [List.append_nil, List.nil_append, hid] at hcases
  unfold insertAccount
  rw [runWith_ok_bind, accountQuery_run]
  simp only [issueAccount, runWith_perform, hbegin, Except.mapError]
  rw [runWith_ok_bind, dropTx_run, runWith_ok_bind, accountQuery_run, runWith_perform]
  rcases hcases with ⟨e, hinsert, hrefused⟩ | ⟨hinsert, hkey⟩ | ⟨hinsert, hfree, htaken⟩
  · rw [hinsert]
    exact Or.inr ⟨fun _ => hrefused, _, rfl⟩
  · rw [hinsert]
    exact Or.inr ⟨fun hfree => absurd (hkey.symm.trans hfree) (by decide), _, rfl⟩
  · rw [hinsert]
    exact Or.inl ⟨hfree, htaken, rfl⟩

theorem cacheAccount_run (account : Account) (s : AccountStore) :
    runWith (execAccount indexed) (cacheAccount account).run s =
      if (s.inner.accounts.lookup account.accountId).isSome then
        (.error s!"account already exists: {account.accountId}", s)
      else
        (.ok account, { s with inner := { s.inner with
          accounts := s.inner.accounts.insert account.accountId account } }) := by
  have hlift : runWith (execAccount indexed)
      (ExceptT.lift (issueAccount (.cacheAccount account)) : AccountDb Bool).run s =
      (.ok (execAccount indexed (.cacheAccount account) s).1,
        (execAccount indexed (.cacheAccount account) s).2) :=
    rfl
  unfold cacheAccount
  rw [runWith_ok_bind, hlift]
  by_cases hknown : (s.inner.accounts.lookup account.accountId).isSome
  · simp only [execAccount, hknown, if_true]
    rfl
  · simp only [execAccount, hknown]
    rfl

end Call

/-- The store without an open transaction, whose map has the keys of the table. -/
structure AccountStore.Settled (s : AccountStore) : Prop where
  closed : s.tx = []
  keys : ∀ id, (s.inner.accounts.lookup id).isSome = hasAccountId s.table id

/-- The store with the account in the table and in the map. -/
def AccountStore.add (s : AccountStore) (account : Account) : AccountStore :=
  { s with
    table := s.table ++ [account.row]
    inner := { s.inner with accounts := s.inner.accounts.insert account.accountId account } }

/-- **A call with a pool adds a valid account with a new key that the table takes**, and otherwise
    errs and keeps the store. -/
theorem createPool_spec (indexed : String → Bool) (c : AccountCall) {s : AccountStore}
    (hs : s.Settled) :
    (∃ r, validate c.2 = .ok r ∧ hasAccountId s.table c.accountId = false ∧
      admitted indexed s.table (newAccount c.1 c.2 r.1).row = true ∧
      createPool indexed c s =
        (.ok (newAccount c.1 c.2 r.1), s.add (newAccount c.1 c.2 r.1))) ∨
    (∃ e, createPool indexed c s = (.error e, s)) ∧
      ∀ r, validate c.2 = .ok r → hasAccountId s.table c.accountId = false →
        admitted indexed s.table (newAccount c.1 c.2 r.1).row = false := by
  have hfirst : createPool indexed c s =
      match validate c.2 with
      | .ok r => runWith (execAccount indexed)
          (insertAccount (newAccount c.1 c.2 r.1) >>= fun _ =>
            cacheAccount (newAccount c.1 c.2 r.1)).run s
      | .error e => (.error e, s) := by
    have hpure : runWith (execAccount indexed)
        (ExceptT.mk (pure (validate c.2)) : AccountDb (String × AssetClass)).run s =
        (validate c.2, s) := rfl
    unfold createPool createAccountPool
    rw [runWith_ok_bind, hpure]
    cases validate c.2 <;> rfl
  rw [hfirst]
  cases hv : validate c.2 with
  | error e => exact Or.inr ⟨⟨e, rfl⟩, fun r hr => by cases hr⟩
  | ok r =>
    have hid : (newAccount c.1 c.2 r.1).accountId = c.accountId := rfl
    simp only
    rw [runWith_ok_bind]
    rcases insertAccount_run indexed (newAccount c.1 c.2 r.1) hs.closed with
      ⟨hkey, htaken, hrun⟩ | ⟨hrefused, e, hrun⟩
    · have hfree : (s.inner.accounts.lookup c.accountId).isSome = false := by
        rw [hs.keys, ← hid, hkey]
      rw [hrun]
      simp only
      rw [cacheAccount_run, hid]
      simp only [hfree, Bool.false_eq_true, if_false]
      exact Or.inl ⟨r, rfl, hkey, htaken, rfl⟩
    · rw [hrun]
      refine Or.inr ⟨⟨e, rfl⟩, fun r' hr' hkey => ?_⟩
      cases hr'
      exact hrefused hkey

theorem AccountStore.Settled.add {s : AccountStore} (h : s.Settled) (account : Account) :
    (s.add account).Settled where
  closed := h.closed
  keys id := by
    show ((s.inner.accounts.insert account.accountId account).lookup id).isSome =
      hasAccountId (s.table ++ [account.row]) id
    unfold hasAccountId
    rw [List.any_append]
    by_cases hid : id = account.accountId
    · subst hid
      rw [AList.lookup_insert]
      simp [Account.row]
    · rw [AList.lookup_insert_ne hid, h.keys]
      have hne : (account.row.accountId == id) = false := by
        simpa [Account.row] using fun h => hid h.symm
      simp [hasAccountId, hne]

theorem createPool_settled (indexed : String → Bool) (c : AccountCall) {s : AccountStore}
    (hs : s.Settled) : (createPool indexed c s).2.Settled := by
  rcases createPool_spec indexed c hs with ⟨r, _, _, _, hrun⟩ | ⟨⟨e, hrun⟩, _⟩
  · rw [hrun]
    exact hs.add _
  · rw [hrun]
    exact hs

/-- A call on the in-memory store adds a valid account with a new key, and otherwise errs and keeps
    the store; it does not look at the parent. -/
theorem createMemory_spec (c : AccountCall) (s : LedgerState) :
    (∃ r, validate c.2 = .ok r ∧ s.accounts.lookup c.accountId = none ∧
      createMemory c s = (.ok (newAccount c.1 c.2 r.1),
        { s with accounts := s.accounts.insert c.accountId (newAccount c.1 c.2 r.1) })) ∨
    (∃ e, createMemory c s = (.error e, s)) ∧
      ∀ r, validate c.2 = .ok r → (s.accounts.lookup c.accountId).isSome := by
  unfold createMemory createAccount
  cases hv : validate c.2 with
  | error e => exact Or.inr ⟨⟨e, rfl⟩, fun r hr => by cases hr⟩
  | ok r =>
    cases hl : s.accounts.lookup c.accountId with
    | none =>
      have hfree : s.accounts.lookup (newAccount c.1 c.2 r.1).accountId = none := hl
      simp only [hfree, Option.isSome_none, Bool.false_eq_true, if_false]
      exact Or.inl ⟨r, rfl, trivial, rfl⟩
    | some acc =>
      have htaken : s.accounts.lookup (newAccount c.1 c.2 r.1).accountId = some acc := hl
      simp only [htaken, Option.isSome_some, if_true]
      exact Or.inr ⟨⟨_, rfl⟩, fun _ _ => trivial⟩

/-! ## 5. Runs of calls -/

/-- An earlier call asked for an account with the id, and passed `validate`. -/
def AskedFor (earlier : List AccountCall) (id : String) : Prop :=
  ∃ c ∈ earlier, c.Valid ∧ c.accountId = id

theorem askedFor_concat (earlier : List AccountCall) (c : AccountCall) (id : String) :
    AskedFor (earlier ++ [c]) id ↔ AskedFor earlier id ∨ c.Valid ∧ c.accountId = id := by
  unfold AskedFor
  simp only [List.mem_append, List.mem_singleton, or_and_right, exists_or, exists_eq_left]

/-- Every call that passes `validate` and is the first such call for its id has texts that the
    database can store, and names no parent, the id it asks for, or one that an earlier such call
    has asked for. -/
def ParentsFirst (indexed : String → Bool) (calls : List AccountCall) : Prop :=
  ∀ earlier c later, calls = earlier ++ c :: later → c.Valid → ¬ AskedFor earlier c.accountId →
    c.Storable indexed ∧ ∀ p, c.2.parentId = some p → p = c.accountId ∨ AskedFor earlier p

/-- The parent of every account of the map is a key of the map. -/
def ParentsInMap (s : LedgerState) : Prop :=
  ∀ id a, s.accounts.lookup id = some a → ∀ p, a.parentId = some p →
    (s.accounts.lookup p).isSome

/-- The parent of every row of the table is a row of the table. -/
def ParentsInTable (s : AccountStore) : Prop :=
  ∀ row ∈ s.table, ∀ p, row.parentId = some p → hasAccountId s.table p = true

theorem ParentsFirst.front {indexed : String → Bool} {calls later : List AccountCall}
    (h : ParentsFirst indexed (calls ++ later)) : ParentsFirst indexed calls := by
  intro earlier c rest hsplit
  exact h earlier c (rest ++ later) (by rw [hsplit, List.append_assoc, List.cons_append])

/-- The keys of the map are the ids that were asked for. -/
theorem memory_keys (earlier : List AccountCall) (id : String) :
    ((run createMemory earlier .new).accounts.lookup id).isSome ↔ AskedFor earlier id := by
  induction earlier using List.reverseRecOn with
  | nil => simp [AskedFor, LedgerState.new]
  | append_singleton earlier c ih =>
    rw [run_concat, askedFor_concat, ← ih]
    rcases createMemory_spec c (run createMemory earlier .new) with
      ⟨r, hv, _, hrun⟩ | ⟨⟨e, hrun⟩, htaken⟩
    · rw [hrun]
      by_cases hid : id = c.accountId
      · subst hid
        simp [AccountCall.Valid, hv]
      · simp [AList.lookup_insert_ne hid, Ne.symm hid]
    · rw [hrun]
      refine ⟨Or.inl, fun h => h.elim (fun h => h) fun hc => ?_⟩
      obtain ⟨⟨r, hr⟩, rfl⟩ := hc
      exact htaken r hr

/-- The rows after an account has been added. -/
theorem hasAccountId_add (s : AccountStore) (c : AccountCall) (typeName id : String) :
    hasAccountId (s.add (newAccount c.1 c.2 typeName)).table id = true ↔
      hasAccountId s.table id = true ∨ c.accountId = id := by
  have htable : (s.add (newAccount c.1 c.2 typeName)).table =
    s.table ++ [(newAccount c.1 c.2 typeName).row] := rfl
  have hid : (newAccount c.1 c.2 typeName).row.accountId = c.accountId := rfl
  rw [htable, hasAccountId, List.any_append, Bool.or_eq_true]
  simp [hasAccountId, hid]

/-- The table takes the row of a valid call whose texts it can store and whose parent is there. -/
theorem admitted_iff {indexed : String → Bool} {rows : List AccountRow} {c : AccountCall}
    {r : String × AssetClass} (hv : validate c.2 = .ok r) :
    admitted indexed rows (newAccount c.1 c.2 r.1).row = true ↔
      c.Storable indexed ∧
        ∀ p, c.2.parentId = some p → p = c.accountId ∨ hasAccountId rows p = true := by
  obtain ⟨htype, hclass⟩ := validate_hasNul hv
  have hid : (newAccount c.1 c.2 r.1).row.accountId = c.accountId := rfl
  have hparent : (newAccount c.1 c.2 r.1).row.parentId = c.2.parentId := rfl
  have hnul : (newAccount c.1 c.2 r.1).row.hasNul = false ↔
      hasNul c.accountId = false ∧ hasNul c.2.label = false ∧
        ∀ p, c.2.parentId = some p → hasNul p = false := by
    show (([c.accountId, r.1, c.2.assetClass, c.2.label].any hasNul ||
      c.2.parentId.any hasNul) = false) ↔ _
    cases c.2.parentId with
    | none => simp [htype, hclass]
    | some p => simp [htype, hclass, and_assoc]
  have horphan : orphan rows (newAccount c.1 c.2 r.1).row = false ↔
      ∀ p, c.2.parentId = some p → p = c.accountId ∨ hasAccountId rows p = true := by
    rw [orphan, hparent, hid]
    cases c.2.parentId with
    | none => simp
    | some p => simp [or_iff_not_imp_left]
  unfold admitted
  rw [Bool.and_eq_true, Bool.and_eq_true, Bool.not_eq_true', Bool.not_eq_true', hnul, horphan, hid]
  exact ⟨fun ⟨⟨⟨hown, hlabel, hp⟩, hindexed⟩, hthere⟩ => ⟨⟨hown, hlabel, hp, hindexed⟩, hthere⟩,
    fun ⟨hs, hthere⟩ => ⟨⟨⟨hs.accountId, hs.label, hs.parentId⟩, hs.indexed⟩, hthere⟩⟩

/-- The store with a pool is settled, the ids of its rows were asked for, and no parent is missing:
    the foreign key holds. -/
theorem pool_run (indexed : String → Bool) (earlier : List AccountCall) :
    (run (createPool indexed) earlier .new).Settled ∧
      (∀ id, hasAccountId (run (createPool indexed) earlier .new).table id = true →
        AskedFor earlier id) ∧
      ParentsInTable (run (createPool indexed) earlier .new) := by
  induction earlier using List.reverseRecOn with
  | nil =>
    refine ⟨⟨rfl, fun _ => rfl⟩, fun id hid => ?_, fun row hrow => ?_⟩
    · cases hid
    · cases hrow
  | append_singleton earlier c ih =>
    obtain ⟨hsettled, hasked, hparents⟩ := ih
    rw [run_concat]
    refine ⟨createPool_settled indexed c hsettled, ?_⟩
    rcases createPool_spec indexed c hsettled with ⟨r, hv, _, htaken, hrun⟩ | ⟨⟨e, hrun⟩, _⟩
    · rw [hrun]
      have htable : ((run (createPool indexed) earlier .new).add (newAccount c.1 c.2 r.1)).table =
        (run (createPool indexed) earlier .new).table ++ [(newAccount c.1 c.2 r.1).row] := rfl
      refine ⟨fun id hid => ?_, fun row hrow p hp => ?_⟩
      · rw [askedFor_concat]
        rcases (hasAccountId_add _ c r.1 id).mp hid with hid | hown
        · exact Or.inl (hasked id hid)
        · exact Or.inr ⟨⟨r, hv⟩, hown⟩
      · refine (hasAccountId_add _ c r.1 p).mpr ?_
        rw [htable, List.mem_append, List.mem_singleton] at hrow
        rcases hrow with hrow | rfl
        · exact Or.inl (hparents row hrow p hp)
        · exact (((admitted_iff hv).mp htaken).2 p hp).symm.imp_right Eq.symm
    · rw [hrun]
      exact ⟨fun id hid => (askedFor_concat _ _ _).mpr (Or.inl (hasked id hid)), hparents⟩

/-- The in-memory store accepts a valid call with a new id. -/
theorem memory_accepts_iff (c : AccountCall) (s : LedgerState) :
    (∃ a, (createMemory c s).1 = .ok a) ↔
      c.Valid ∧ (s.accounts.lookup c.accountId).isSome = false := by
  rcases createMemory_spec c s with ⟨r, hv, hfree, hrun⟩ | ⟨⟨e, hrun⟩, htaken⟩
  · rw [hrun]
    exact iff_of_true ⟨_, rfl⟩ ⟨⟨r, hv⟩, by rw [hfree]; rfl⟩
  · rw [hrun]
    refine iff_of_false (by simp) fun h => ?_
    obtain ⟨⟨r, hr⟩, hfree⟩ := h
    rw [htaken r hr] at hfree
    cases hfree

/-- The store with a pool accepts a valid call with a new id that the database can store and whose
    parent is there. -/
theorem pool_accepts_iff (indexed : String → Bool) (c : AccountCall) {s : AccountStore}
    (hs : s.Settled) :
    (∃ a, (createPool indexed c s).1 = .ok a) ↔
      c.Valid ∧ hasAccountId s.table c.accountId = false ∧ c.Storable indexed ∧
        ∀ p, c.2.parentId = some p → p = c.accountId ∨ hasAccountId s.table p = true := by
  rcases createPool_spec indexed c hs with ⟨r, hv, hfree, htaken, hrun⟩ | ⟨⟨e, hrun⟩, hrefused⟩
  · rw [hrun]
    exact iff_of_true ⟨_, rfl⟩ ⟨⟨r, hv⟩, hfree, (admitted_iff hv).mp htaken⟩
  · rw [hrun]
    refine iff_of_false (by simp) fun h => ?_
    obtain ⟨⟨r, hr⟩, hfree, htaken⟩ := h
    have hno := hrefused r hr hfree
    rw [(admitted_iff hr).mpr htaken] at hno
    cases hno

/-- **One call with a pool**: if the database can store a new account and its parent is there, the
    account is inserted. -/
theorem createPool_rows (indexed : String → Bool) (c : AccountCall) {s : AccountStore}
    (hs : s.Settled)
    (htaken : c.Valid → hasAccountId s.table c.accountId = false → c.Storable indexed ∧
      ∀ p, c.2.parentId = some p → p = c.accountId ∨ hasAccountId s.table p = true) (id : String) :
    hasAccountId (createPool indexed c s).2.table id = true ↔
      hasAccountId s.table id = true ∨ c.Valid ∧ c.accountId = id := by
  rcases createPool_spec indexed c hs with ⟨r, hv, _, _, hrun⟩ | ⟨⟨e, hrun⟩, _⟩
  · rw [hrun, hasAccountId_add]
    exact or_congr_right (and_iff_right ⟨r, hv⟩).symm
  · rw [hrun]
    refine ⟨Or.inl, fun hid => hid.elim (fun h => h) fun hc => ?_⟩
    obtain ⟨hvalid, rfl⟩ := hc
    by_contra hnew
    have hfree := Bool.eq_false_iff.mpr hnew
    have hthere := (pool_accepts_iff indexed c hs).mpr ⟨hvalid, hfree, htaken hvalid hfree⟩
    rw [hrun] at hthere
    obtain ⟨a, ha⟩ := hthere
    cases ha

/-- **One call on the in-memory store**: if the parent of a new account is there, no parent is
    missing. -/
theorem createMemory_parents (c : AccountCall) {s : LedgerState} (h : ParentsInMap s)
    (hparent : c.Valid → s.accounts.lookup c.accountId = none →
      ∀ p, c.2.parentId = some p → p = c.accountId ∨ (s.accounts.lookup p).isSome) :
    ParentsInMap (createMemory c s).2 := by
  rcases createMemory_spec c s with ⟨r, hv, hfree, hrun⟩ | ⟨⟨e, hrun⟩, _⟩
  · rw [hrun]
    intro id a ha p hp
    show ((AList.insert c.accountId _ _).lookup p).isSome
    by_cases hself : p = c.accountId
    · subst hself
      rw [AList.lookup_insert]
      rfl
    · rw [AList.lookup_insert_ne hself]
      by_cases hid : id = c.accountId
      · subst hid
        have hown : newAccount c.1 c.2 r.1 = a :=
          Option.some.inj ((AList.lookup_insert _).symm.trans ha)
        subst hown
        exact (hparent ⟨r, hv⟩ hfree p hp).resolve_left hself
      · exact h id a ((AList.lookup_insert_ne hid).symm.trans ha) p hp
  · rw [hrun]
    exact h

/-- Where parents come first the rows are the accounts that were asked for, and the map has their
    parents. -/
theorem parentsFirst_run {indexed : String → Bool} {earlier : List AccountCall}
    (h : ParentsFirst indexed earlier) :
    (∀ id, hasAccountId (run (createPool indexed) earlier .new).table id = true ↔
        AskedFor earlier id) ∧
      ParentsInMap (run createMemory earlier .new) := by
  induction earlier using List.reverseRecOn with
  | nil =>
    refine ⟨fun id => ?_, fun id a ha => ?_⟩
    · simp [AskedFor, hasAccountId, AccountStore.new]
    · cases ha
  | append_singleton earlier c ih =>
    obtain ⟨hrows, hmap⟩ := ih h.front
    obtain ⟨hsettled, _, _⟩ := pool_run indexed earlier
    have hfirst := h earlier c [] rfl
    rw [run_concat, run_concat]
    refine ⟨fun id => ?_, createMemory_parents c hmap fun hvalid hfree p hp => ?_⟩
    · rw [askedFor_concat, ← hrows]
      refine createPool_rows indexed c hsettled (fun hvalid hfree => ?_) id
      obtain ⟨hstored, hparent⟩ := hfirst hvalid (by rw [← hrows, hfree]; simp)
      refine ⟨hstored, fun p hp => ?_⟩
      rw [hrows]
      exact hparent p hp
    · rw [memory_keys]
      exact (hfirst hvalid (by rw [← memory_keys, hfree]; simp)).2 p hp

/-- **When both storage modes accept the same accounts**, over every sequence of `create_account`
    calls from the empty store: each call is accepted in one mode exactly when it is in the other,
    and in every reached state of either mode every parent is there, if and only if parents come
    first and the database can store what is asked for. -/
theorem modes_agree_iff (indexed : String → Bool) (calls : List AccountCall) :
    ((∀ earlier c later, calls = earlier ++ c :: later →
        ((∃ a, (createMemory c (run createMemory earlier .new)).1 = .ok a) ↔
          ∃ a, (createPool indexed c (run (createPool indexed) earlier .new)).1 = .ok a)) ∧
      ∀ earlier later, calls = earlier ++ later →
        ParentsInMap (run createMemory earlier .new) ∧
          ParentsInTable (run (createPool indexed) earlier .new)) ↔
    ParentsFirst indexed calls := by
  constructor
  · intro h earlier c later hsplit hvalid hnew
    obtain ⟨hsettled, hasked, _⟩ := pool_run indexed earlier
    have hfree : ((run createMemory earlier .new).accounts.lookup c.accountId).isSome = false := by
      rw [Bool.eq_false_iff, ne_eq, memory_keys]
      exact hnew
    have hpool := (h.1 earlier c later hsplit).mp ((memory_accepts_iff c _).mpr ⟨hvalid, hfree⟩)
    obtain ⟨_, _, hstored, hparent⟩ := (pool_accepts_iff indexed c hsettled).mp hpool
    exact ⟨hstored, fun p hp => (hparent p hp).imp_right (hasked p)⟩
  · intro h
    refine ⟨fun earlier c later hsplit => ?_, fun earlier later hsplit => ?_⟩
    · obtain ⟨hsettled, _, _⟩ := pool_run indexed earlier
      have hfront : ParentsFirst indexed earlier := (hsplit ▸ h).front
      obtain ⟨hrows, _⟩ := parentsFirst_run hfront
      rw [memory_accepts_iff, pool_accepts_iff indexed c hsettled, Bool.eq_false_iff, ne_eq,
        memory_keys, Bool.eq_false_iff, ne_eq, hrows]
      refine ⟨fun hc => ⟨hc.1, hc.2, ?_⟩, fun hc => ⟨hc.1, hc.2.1⟩⟩
      obtain ⟨hstored, hparent⟩ := h earlier c later hsplit hc.1 hc.2
      refine ⟨hstored, fun p hp => ?_⟩
      rw [hrows]
      exact hparent p hp
    · have hfront : ParentsFirst indexed earlier := (hsplit ▸ h).front
      exact ⟨(parentsFirst_run hfront).2, (pool_run indexed earlier).2.2⟩

/-- **An account under a missing parent**: the in-memory store accepts it and names a parent that
    is not there, the store with a pool refuses it, whatever its index takes. -/
theorem missing_parent_accepted :
    let call : AccountCall :=
      (⟨fun _ => 1700000000, fun _ => "", fun l => l, fun _ => by decide, .refl⟩,
        ⟨some "sub", "user_custodial", "BOTH", "sub-account", some "nowhere"⟩)
    (∃ a, (createMemory call .new).1 = .ok a) ∧
      (∀ indexed a, (createPool indexed call .new).1 ≠ .ok a) ∧
      ¬ ParentsInMap (run createMemory [call] .new) := by
  intro call
  refine ⟨⟨_, rfl⟩, fun indexed a ha => ?_, fun hparents => ?_⟩
  · obtain ⟨hsettled, _, _⟩ := pool_run indexed []
    obtain ⟨_, _, _, hparent⟩ := (pool_accepts_iff indexed call hsettled).mp ⟨a, ha⟩
    rcases hparent "nowhere" rfl with hown | hthere
    · exact absurd hown (by decide)
    · cases hthere
  · have hthere := hparents "sub" _ rfl "nowhere" rfl
    exact absurd hthere (by decide)

end LedgerAccounting
