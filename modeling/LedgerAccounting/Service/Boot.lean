/-
  File:      LedgerAccounting/Service/Boot.lean
  Subject:   The start of the service (`main` of `main.rs`) up to the point where it serves: the
             isolation setting, the store, the migrations, `hydrate`, the audit sink,
             `verify_chain_at_startup`, the port, and the secret of the service tokens.

  A start that is refused ends the process; what is modelled of it is the text it leaves. The
  driver, the brokers, the database and the port are outside: what they answer is `Outside`.

  Commits are serial when each was made on the rows that the last hash was read from and the read
  found it. Calls that run at the same time may still commit so; a commit on other rows, or behind
  a read of the last hash that was lost, is not serial.

  * `restart_iff_serial`: a process that is configured to start comes up again exactly when the
    commits before it were serial, and then with what the tables hold.
  * `stale_commit_refused_forever`: after one commit that was not serial no later start comes up.
  * `other_salt_refused`: nor does a start under another salt.
  * `boot_memory_iff`: a start without a database.
-/
import LedgerAccounting.Chain.Salts
import LedgerAccounting.Pool.Anchors
import LedgerAccounting.Pool.Durability
import LedgerAccounting.Service.Config

namespace LedgerAccounting

open Runs Keyed

/-! ## 1. `main` -/

/-- What the outside answers during a start: the driver, `run_migrations`, the queries of
    `hydrate`, the producer of the audit sink, the query of `verify_chain`, and the port, whose
    failure is the text `unwrap` panics with. -/
structure Outside where
  connect : Except String Unit
  migrations : Except String Unit
  reads : HydrateReads
  createProducer : String → Except String Unit
  chain : Except String (List EntryRow)
  bind : Except String Unit

/-- A store as `main` builds it: whether it has a pool, its salt and its state. -/
structure BootStore where
  pooled : Bool
  salt : String
  state : LedgerState

/-- A service that has come up: its store, whether events go to the brokers, the secret of the
    service tokens, and its ports. -/
structure Started where
  store : BootStore
  brokers : Bool
  secret : Option String
  restPort : Nat
  grpcPort : Nat

def connectStore (cfg : BootConfig) (o : Outside) : Except String BootStore :=
  if cfg.dbUrl.isEmpty then .ok ⟨false, "", .new⟩
  else do
    o.connect.mapError fun e => s!"[boot] failed to connect to postgres: {e}"
    o.migrations.mapError fun e => s!"[boot] {e}"
    let state ← (hydrate o.reads .new).mapError fun e => s!"[boot] {e}"
    return ⟨true, cfg.hashChainSalt.getD "", state⟩

section Boot

variable (digest : ByteArray → String)

/-- `Store::verify_chain` on the store. -/
def BootStore.verifyChain (store : BootStore) (o : Outside) : Except ChainBreak Unit :=
  if store.pooled then verifyRows digest store.salt o.chain
  else LedgerAccounting.verifyChain digest store.salt store.state

def verifyChainAtStartup (store : BootStore) (o : Outside) : Except String Unit :=
  (store.verifyChain digest o).mapError fun b =>
    s!"[chain] FATAL: hash chain broken at entry {b.entryId}: {b.reason}"

/-- `main`, up to the point where it serves. -/
def boot (env : Env) (o : Outside) : Except String Started := do
  let cfg := BootConfig.fromEnv env
  cfg.assertIsolation.mapError fun e => s!"[boot] {e}"
  let store ← connectStore cfg o
  let brokers ← (auditSinkFromEnv o.createProducer env).mapError fun e =>
    s!"[boot] audit sink init: {e}"
  verifyChainAtStartup digest store o
  o.bind
  let secret ← secretFromEnv env
  -- a release build: the sum of the port wraps around
  return ⟨store, brokers, secret, cfg.port, (cfg.port + 1) % 2 ^ 16⟩

end Boot

/-! ## 2. What a start needs -/

section Start

variable {digest : ByteArray → String} {env : Env} {o : Outside} {salt : String}

/-- The environment asks for the database, under the given salt, and for nothing that refuses the
    start whatever the database holds: it has a secret, or says that the process is a development
    one. -/
structure Configured (env : Env) (o : Outside) (salt : String) : Prop where
  isolation : (BootConfig.fromEnv env).assertIsolation = .ok ()
  database : (BootConfig.fromEnv env).dbUrl.isEmpty = false
  salt : (BootConfig.fromEnv env).hashChainSalt.getD "" = salt
  sink : ∃ brokers, auditSinkFromEnv o.createProducer env = .ok brokers
  secret : (∃ s, env "SERVICE_TOKEN_SECRET" = some s ∧ s ≠ "") ∨ env "DEV_MODE" = some "1"

/-- No query of the start fails, all of them read the tables `t`, and the port is free. -/
structure Outside.Of (o : Outside) (t : Tables) (snapshots : List SnapshotRow) : Prop where
  connect : o.connect = .ok ()
  migrations : o.migrations = .ok ()
  reads : o.reads.Of t snapshots
  chain : ∃ rows, o.chain = .ok rows ∧ Ordered t.entries rows
  bind : o.bind = .ok ()

/-- The outside when nothing fails: the rows of the tables, the entries by number. -/
def Outside.ofTables (t : Tables) (snapshots : List SnapshotRow) : Outside where
  connect := .ok ()
  migrations := .ok ()
  reads :=
    { accounts := .ok t.accounts
      entries := .ok (bySequence t.entries)
      postings := .ok t.postings
      anchors := .ok t.hashChain
      snapshots := .ok snapshots
      lastEntry := fun id => .ok ((rowAt EntryRow.entryId t.entries id).map (·.entryId))
      lastSequence := fun id =>
        .ok ((rowAt EntryRow.entryId t.entries id).map (·.sequenceNumber)) }
  createProducer _ := .ok ()
  chain := .ok (bySequence t.entries)
  bind := .ok ()

theorem outside_ofTables (t : Tables) (snapshots : List SnapshotRow) :
    (Outside.ofTables t snapshots).Of t snapshots where
  connect := rfl
  migrations := rfl
  reads :=
    { accounts := ⟨_, rfl, .refl _⟩
      entries := ⟨_, rfl, bySequence_ordered _⟩
      postings := ⟨_, rfl, .refl _⟩
      anchors := ⟨_, rfl, .refl _⟩
      snapshots := ⟨_, rfl, .refl _⟩
      lastEntry := fun _ => rfl
      lastSequence := fun _ => rfl }
  chain := ⟨_, rfl, bySequence_ordered _⟩
  bind := rfl

/-- **A start with a database comes up with the hydrated state of a chain that verifies.** -/
theorem boot_pooled_iff (hdb : (BootConfig.fromEnv env).dbUrl.isEmpty = false)
    (hsalt : (BootConfig.fromEnv env).hashChainSalt.getD "" = salt) (started : Started) :
    boot digest env o = .ok started ↔
      (BootConfig.fromEnv env).assertIsolation = .ok () ∧ o.connect = .ok () ∧
      o.migrations = .ok () ∧ o.bind = .ok () ∧
      ∃ state brokers secret, hydrate o.reads .new = .ok state ∧
        auditSinkFromEnv o.createProducer env = .ok brokers ∧
        verifyRows digest salt o.chain = .ok () ∧ secretFromEnv env = .ok secret ∧
        started = ⟨⟨true, salt, state⟩, brokers, secret, (BootConfig.fromEnv env).port,
          ((BootConfig.fromEnv env).port + 1) % 2 ^ 16⟩ := by
  unfold boot connectStore verifyChainAtStartup BootStore.verifyChain
  simp only [hdb, hsalt, Bool.false_eq_true, if_false, bind_ok_iff, mapError_ok_iff]
  constructor
  · rintro ⟨_, hiso, store, ⟨_, hconnect, _, hmigrations, state, hstate, hstore⟩, brokers, hsink, _,
      hverify, _, hbind, secret, hsecret, hstarted⟩
    cases hstore
    cases hstarted
    exact ⟨hiso, hconnect, hmigrations, hbind, state, brokers, secret, hstate, hsink, hverify,
      hsecret, rfl⟩
  · rintro ⟨hiso, hconnect, hmigrations, hbind, state, brokers, secret, hstate, hsink, hverify,
      hsecret, rfl⟩
    exact ⟨(), hiso, ⟨true, salt, state⟩, ⟨(), hconnect, (), hmigrations, state, hstate, rfl⟩,
      brokers, hsink, (), hverify, (), hbind, secret, hsecret, rfl⟩

/-- A start with a database has verified the chain. -/
theorem boot_verified (hdb : (BootConfig.fromEnv env).dbUrl.isEmpty = false)
    (hsalt : (BootConfig.fromEnv env).hashChainSalt.getD "" = salt) {started : Started}
    (hboot : boot digest env o = .ok started) : verifyRows digest salt o.chain = .ok () := by
  obtain ⟨_, _, _, _, _, _, _, _, _, hverify, _⟩ := (boot_pooled_iff hdb hsalt started).mp hboot
  exact hverify

/-- **A start without a database comes up with the empty store under the empty salt.** -/
theorem boot_memory_iff (hdb : (BootConfig.fromEnv env).dbUrl.isEmpty = true) (started : Started) :
    boot digest env o = .ok started ↔
      (BootConfig.fromEnv env).assertIsolation = .ok () ∧ o.bind = .ok () ∧
      ∃ brokers secret, auditSinkFromEnv o.createProducer env = .ok brokers ∧
        secretFromEnv env = .ok secret ∧
        started = ⟨⟨false, "", .new⟩, brokers, secret, (BootConfig.fromEnv env).port,
          ((BootConfig.fromEnv env).port + 1) % 2 ^ 16⟩ := by
  have hverify : verifyChain digest "" .new = .ok () := rfl
  unfold boot connectStore verifyChainAtStartup BootStore.verifyChain
  simp only [hdb, if_true, bind_ok_iff, mapError_ok_iff]
  constructor
  · rintro ⟨_, hiso, store, hstore, brokers, hsink, _, _, _, hbind, secret, hsecret, hstarted⟩
    cases hstore
    cases hstarted
    exact ⟨hiso, hbind, brokers, secret, hsink, hsecret, rfl⟩
  · rintro ⟨hiso, hbind, brokers, secret, hsink, hsecret, rfl⟩
    exact ⟨(), hiso, ⟨false, "", .new⟩, rfl, brokers, hsink, (), hverify, (), hbind, secret,
      hsecret, rfl⟩

end Start

/-! ## 3. Serial commits and the log -/

section Serial

variable {digest : ByteArray → String} {salt : String} {calls : Nat → PoolCall}
  {replica : Nat → Nat} {base : Tables} {inner : Nat → LedgerState} {c : Cluster} {w w' : World}

/-- **A table that verifies was written by serial commits.** -/
theorem serial_of_verified (hI : PoolInv digest salt calls w)
    (hbase : Chained digest salt w.base.entries)
    (hd : DigestSound digest (hashInputs salt (w.db.entries.map (·.record))))
    {rows : List EntryRow} (hrows : Ordered w.db.entries rows)
    (hok : verifyRows digest salt (.ok rows) = .ok ()) : Serial w := by
  have hprevs := prevs_nodup hrows hd hok
  intro k
  induction k using Nat.strongRecOn with
  | ind k ih =>
    intro hk
    exact serialAt_of_prevs hI hk (chained_dbAt hI hbase k hk.le fun j hj hjk => ih j hjk hj) hprevs

/-- What was serial at a later moment was serial before. -/
theorem Serial.before (h : Serial w') (hbase : w'.base = w.base) (hlog : w.log <+: w'.log) :
    Serial w := by
  intro k hk
  obtain ⟨rest, hrest⟩ := hlog
  have hk' : k < w'.log.length := by
    rw [← hrest, List.length_append]
    omega
  have hsame : w'.log[k] = w.log[k] := by
    simp only [← hrest]
    exact List.getElem_append_left hk
  obtain ⟨r, hr, hrk, hlast⟩ := h k hk'
  rw [hsame] at hr
  rw [dbAt_grows hbase ⟨rest, hrest⟩ hk.le] at hlast
  exact ⟨r, hr, hrk, hlast⟩

/-! ## 4. A process that is started again -/

/-- **A start comes up exactly when the commits before it were serial**, and then with a state whose
    reads are those of the tables. The start is one of a configured process, in which nothing
    outside fails, on the tables that any run of the cluster has left: calls run at the same time,
    fail and are cut off. -/
theorem restart_iff_serial (digest : ByteArray → String) (salt : String)
    (calls : Nat → PoolCall) (replica : Nat → Nat) (base : Tables) (inner : Nat → LedgerState)
    (hbooks : base.InBalance) (hanchored : base.Anchored)
    (hchained : Chained digest salt base.entries) (c : Cluster)
    (h : ClusterReach digest salt calls replica base inner c) (env : Env) (o : Outside)
    (hconf : Configured env o salt) (snapshots : List SnapshotRow)
    (hreads : o.Of c.world.db snapshots)
    (hfit : ∀ snap ∈ snapshots, -2 ^ 127 ≤ snap.balance ∧ snap.balance < 2 ^ 127)
    (hd : DigestSound digest (hashInputs salt (c.world.db.entries.map (·.record)))) :
    ((∃ started, boot digest env o = .ok started) ↔ Serial c.world) ∧
    ∀ started, boot digest env o = .ok started → started.store.pooled = true ∧
      started.store.salt = salt ∧ ReadsAgree digest salt c.world.db started.store.state := by
  have hs := cluster_sound h
  obtain ⟨rows, hchain, hrows⟩ := hreads.chain
  have hserial : ∀ started, boot digest env o = .ok started → Serial c.world := by
    intro started hboot
    have hverify := boot_verified hconf.database hconf.salt hboot
    rw [hchain] at hverify
    exact serial_of_verified hs.poolInv (by rwa [hs.base]) hd hrows hverify
  refine ⟨⟨fun ⟨started, hboot⟩ => hserial started hboot, fun hser => ?_⟩,
    fun started hboot => ?_⟩
  · obtain ⟨hposted, hverifies⟩ := serial_posted hbooks hanchored hchained h hser
    obtain ⟨state, hstate, _⟩ := hydrate_spec hreads.reads hposted.toSound hfit .new
    obtain ⟨brokers, hsink⟩ := hconf.sink
    obtain ⟨secret, hsecret⟩ := (secretFromEnv_isOk_iff env).mpr hconf.secret
    refine ⟨_, (boot_pooled_iff hconf.database hconf.salt _).mpr ⟨hconf.isolation, hreads.connect,
      hreads.migrations, hreads.bind, state, brokers, secret, hstate, hsink, ?_, hsecret, rfl⟩⟩
    rw [hchain]
    exact hverifies.read hrows
  · obtain ⟨hposted, _⟩ := serial_posted hbooks hanchored hchained h (hserial started hboot)
    obtain ⟨state, hstate, hmirrors⟩ := hydrate_spec hreads.reads hposted.toSound hfit .new
    obtain ⟨_, _, _, _, state', _, _, hstate', _, _, _, rfl⟩ :=
      (boot_pooled_iff hconf.database hconf.salt started).mp hboot
    rw [hstate] at hstate'
    cases hstate'
    exact ⟨rfl, rfl, reads_agree hposted hmirrors⟩

/-- **After one commit that was not serial no later start comes up**, whatever is posted, retried,
    stopped and started in between, and whatever else is configured: a start under the salt of the
    chain that reads the rows there are then is refused. -/
theorem stale_commit_refused_forever (digest : ByteArray → String) (salt : String)
    (calls : Nat → PoolCall) (replica : Nat → Nat) (base : Tables) (inner : Nat → LedgerState)
    (hchained : Chained digest salt base.entries) (c c' : Cluster)
    (h : ClusterReach digest salt calls replica base inner c) (hstale : ¬ Serial c.world)
    (hlater : Relation.ReflTransGen (ClusterStep digest salt calls replica) c c')
    (hd : DigestSound digest (hashInputs salt (c'.world.db.entries.map (·.record))))
    (env : Env) (hdb : (BootConfig.fromEnv env).dbUrl.isEmpty = false)
    (hsalt : (BootConfig.fromEnv env).hashChainSalt.getD "" = salt) (o : Outside)
    (rows : List EntryRow) (hchain : o.chain = .ok rows)
    (hrows : Ordered c'.world.db.entries rows) : ∃ e, boot digest env o = .error e := by
  have hs := cluster_sound h
  have hs' := cluster_sound (h.trans hlater)
  cases hboot : boot digest env o with
  | error e => exact ⟨e, rfl⟩
  | ok started =>
    have hverify := boot_verified hdb hsalt hboot
    rw [hchain] at hverify
    have hserial := serial_of_verified hs'.poolInv (by rwa [hs'.base]) hd hrows hverify
    exact absurd (hserial.before (hs'.base.trans hs.base.symm) (cluster_grows hlater)) hstale

/-- The environment of the samples: a salt, and no brokers. -/
def sampleEnv : Env := fun name => [("DEV_MODE", "1"), ("HASH_CHAIN_SALT", "s1")].lookup name

theorem sampleEnv_configured (t : Tables) :
    Configured sampleEnv (Outside.ofTables t []) sampleSalt where
  isolation := by decide +kernel
  database := by decide +kernel
  salt := rfl
  sink := ⟨false, rfl⟩
  secret := Or.inr rfl

theorem sampleAcknowledged_serial : Serial sampleAcknowledged.world := by
  have hlength : sampleAcknowledged.world.log.length = 1 := rfl
  intro k hk
  rw [hlength] at hk
  interval_cases k
  exact SerialAt.of_read (by with_unfolding_all rfl)

/-- The posting of Run.lean, made with a pool: its process stops and starts again. -/
theorem restart_iff_serial_sample : ∃ started, boot sampleDigest sampleEnv
    (Outside.ofTables (sampleAcknowledged.stop id 0).world.db []) = .ok started ∧
    ReadsAgree sampleDigest sampleSalt (sampleAcknowledged.stop id 0).world.db
      started.store.state := by
  have hrows : (sampleAcknowledged.stop id 0).world.db.entries =
      sampleState.entries.map (·.row) := by
    set_option maxRecDepth 20000 in with_unfolding_all rfl
  have hrecords : (sampleAcknowledged.stop id 0).world.db.entries.map (·.record) =
      sampleState.entries := by
    have hback : ∀ e ∈ sampleState.entries, e.row.record = e := by
      intro e he
      have hall : ∀ e ∈ sampleState.entries, e.amount < 2 ^ 64 ∧
          e.createdAt = toString 1700000000 := by decide +kernel
      exact record_row (hall e he).1 (by decide) (hall e he).2
    rw [hrows, List.map_map]
    exact (List.map_congr_left hback).trans (List.map_id _)
  have hreach : ClusterReach sampleDigest sampleSalt sampleTwice id sampleTables (fun _ => .new)
      (sampleAcknowledged.stop id 0) :=
    (reach_turns (exec_sound id) _ _).tail (.stop 0 (by decide +kernel))
  have hserial : Serial (sampleAcknowledged.stop id 0).world :=
    sampleAcknowledged_serial.before rfl List.prefix_rfl
  have hall := restart_iff_serial sampleDigest sampleSalt sampleTwice id sampleTables
    (fun _ => .new) sampleTables_inBalance
    ⟨List.nodup_nil, fun _ ha => absurd ha List.not_mem_nil⟩ chained_nil _ hreach sampleEnv _
    (sampleEnv_configured _) [] (outside_ofTables _ _) (fun _ hs => absurd hs List.not_mem_nil)
    (by rw [hrecords]; exact sampleDigest_sound)
  obtain ⟨started, hboot⟩ := hall.1.mpr hserial
  exact ⟨started, hboot, (hall.2 started hboot).2.2⟩

/-! ## 5. A start under another salt -/

/-- Every committed entry is sealed under the salt of the calls, serial or not. -/
theorem cluster_sealed (hbase : ∀ e ∈ base.entries.map (·.record), Sealed digest salt e)
    (h : ClusterReach digest salt calls replica base inner c) :
    ∀ e ∈ c.world.db.entries.map (·.record), Sealed digest salt e := by
  have hs := cluster_sound h
  intro e he
  unfold World.db at he
  rw [tablesAfter_entries, List.map_append, hs.base] at he
  rcases List.mem_append.mp he with he | he
  · exact hbase e he
  · obtain ⟨row, hrow, rfl⟩ := List.mem_map.mp he
    obtain ⟨k, hk, hkrow⟩ := List.mem_flatMap.mp hrow
    obtain ⟨n, hn⟩ := List.mem_iff_getElem?.mp hk
    obtain ⟨parsed, m, g, hmade⟩ := hs.poolInv.made n k hn
    have hin : row.record ∈ k.tables.entries.map (·.record) := List.mem_map_of_mem hkrow
    rw [booked_records hmade.booked hmade.valid] at hin
    exact made_sealed memoryLoop_spec.made _ hin

/-- **A start under another salt is refused** once the ledger has an entry, the setting left out
    included: whatever the run before it was, the chain is that of the salt it was written under. -/
theorem other_salt_refused (digest : ByteArray → String) (salt salt' : String) (hne : salt ≠ salt')
    (calls : Nat → PoolCall) (replica : Nat → Nat) (base : Tables) (inner : Nat → LedgerState)
    (hbase : ∀ e ∈ base.entries.map (·.record), Sealed digest salt e) (c : Cluster)
    (h : ClusterReach digest salt calls replica base inner c) (hsome : c.world.db.entries ≠ [])
    (hd : CollisionFree digest (hashInputs salt (c.world.db.entries.map (·.record)) ++
      hashInputs salt' (c.world.db.entries.map (·.record))))
    (env : Env) (hdb : (BootConfig.fromEnv env).dbUrl.isEmpty = false)
    (hsalt : (BootConfig.fromEnv env).hashChainSalt.getD "" = salt') (o : Outside)
    (rows : List EntryRow) (hchain : o.chain = .ok rows)
    (hrows : Ordered c.world.db.entries rows) : ∃ e, boot digest env o = .error e := by
  cases hboot : boot digest env o with
  | error e => exact ⟨e, rfl⟩
  | ok started =>
    have hverify := boot_verified hdb hsalt hboot
    rw [hchain] at hverify
    obtain ⟨row, hrow⟩ := List.exists_mem_of_ne_nil _ hsome
    have hin : row.record ∈ c.world.db.entries.map (·.record) := List.mem_map_of_mem hrow
    have hread : row.record ∈ rows.map (·.record) :=
      List.mem_map_of_mem (hrows.1.symm.subset hrow)
    have hsealed := ((verifyRows_ok_iff rows).mp hverify).2 _ hread
    exact absurd (sealed_salt_unique hd hin hin (cluster_sealed hbase h _ hin) hsealed) hne

end Serial

/-! ## 6. Two samples -/

/-- Sealed entries with different hashes witness that the digest has no collision on them. -/
theorem sealed_collisionFree {digest : ByteArray → String} {salt : String} {l : List EntryRecord}
    (hs : ∀ e ∈ l, Sealed digest salt e) (hn : (l.map (·.thisHash)).Nodup) :
    CollisionFree digest (hashInputs salt l) := by
  have hinput : ∀ b ∈ hashInputs salt l, ∃ e ∈ l, ∃ c, e.canonical = some c ∧
      b = hashInput e.prevHash salt c ∧ digest b = e.thisHash := by
    intro b hb
    obtain ⟨e, he, hcanonical⟩ := List.mem_filterMap.mp hb
    obtain ⟨c, hc, rfl⟩ := Option.map_eq_some_iff.mp hcanonical
    obtain ⟨c', hc', hhash⟩ := hs e he
    obtain rfl : c = c' := Option.some.inj (hc.symm.trans hc')
    exact ⟨e, he, c, hc, rfl, hhash.symm⟩
  intro b hb b' hb' hsame
  obtain ⟨e, he, c, hc, rfl, hd⟩ := hinput b hb
  obtain ⟨e', he', c', hc', rfl, hd'⟩ := hinput b' hb'
  obtain rfl : e = e' := List.inj_on_of_nodup_map hn he he' (by rw [← hd, ← hd', hsame])
  rw [Option.some.inj (hc.symm.trans hc')]

/-- A digest of 64 characters. -/
def foldDigest (b : ByteArray) : String :=
  let n := b.data.toList.foldl (fun n x => (n * 257 + x.toNat + 1) % 10 ^ 62) 0
  String.ofList ('#' :: Nat.toDigits 10 (10 ^ 62 + n % 10 ^ 62))

theorem foldDigest_length (b : ByteArray) : (foldDigest b).length = 64 := by
  unfold foldDigest
  generalize b.data.toList.foldl (fun n x => (n * 257 + x.toNat + 1) % 10 ^ 62) 0 = n
  have hlow : ¬ (Nat.toDigits 10 (10 ^ 62 + n % 10 ^ 62)).length ≤ 62 := by
    rw [Nat.length_toDigits_le_iff (by decide) (by decide)]
    omega
  have hhigh : (Nat.toDigits 10 (10 ^ 62 + n % 10 ^ 62)).length ≤ 63 := by
    rw [Nat.length_toDigits_le_iff (by decide) (by decide)]
    omega
  dsimp only
  rw [String.length_ofList, List.length_cons]
  omega

theorem foldDigest_ne_genesis (b : ByteArray) : foldDigest b ≠ genesisHash := by
  intro h
  have hl := congrArg String.toList h
  simp [foldDigest, genesisHash] at hl

/-- The two calls of Books.lean under that digest. -/
def sampleBroken : Cluster :=
  (Cluster.start sampleTables fun _ => .new).turns foldDigest sampleSalt sampleTwo id (exec id)
    (List.replicate 16 [0, 1]).flatten

theorem sampleBroken_reach : ClusterReach foldDigest sampleSalt sampleTwo id sampleTables
    (fun _ => .new) sampleBroken :=
  reach_turns (exec_sound id) _ _

theorem sampleBroken_stale : ¬ Serial sampleBroken.world := by
  intro h
  have hlength : 1 < sampleBroken.world.log.length := by decide +kernel
  obtain ⟨r, hr, hk, _⟩ := h 1 hlength
  have hread : (sampleBroken.world.log[1]?.bind fun k => k.readAt.map (·.committed)) = some 0 := by
    decide +kernel
  rw [List.getElem?_eq_getElem hlength, Option.bind_some, show _ = some r from hr] at hread
  rw [Option.map_some, hk] at hread
  cases hread

/-- No process comes up on the rows of two calls that have both read the empty table. -/
theorem stale_commit_refused_forever_sample : ∃ e, boot foldDigest sampleEnv
    (Outside.ofTables sampleBroken.world.db []) = .error e := by
  have hseals := cluster_sealed (fun e he => absurd he List.not_mem_nil) sampleBroken_reach
  have hhashes : (sampleBroken.world.db.entries.map (·.thisHash)).Nodup := by decide +kernel
  have hd : DigestSound foldDigest (hashInputs sampleSalt
      (sampleBroken.world.db.entries.map (·.record))) :=
    ⟨sealed_collisionFree hseals (by rw [List.map_map]; exact hhashes),
      fun b _ => foldDigest_length b, fun b _ => foldDigest_ne_genesis b⟩
  exact stale_commit_refused_forever foldDigest sampleSalt sampleTwo id sampleTables (fun _ => .new)
    chained_nil sampleBroken sampleBroken sampleBroken_reach sampleBroken_stale .refl hd
    sampleEnv (by decide +kernel) rfl _ _ rfl (bySequence_ordered _)

/-- With the setting left out, no process comes up on the rows of Books.lean. -/
theorem other_salt_refused_sample : ∃ e, boot plainDigest (fun name =>
    [("DEV_MODE", "1")].lookup name) (Outside.ofTables sampleOverlap.world.db []) = .error e :=
  other_salt_refused plainDigest sampleSalt "" (by decide) sampleTwo id sampleTables
    (fun _ => .new) (fun _ he => absurd he List.not_mem_nil) sampleOverlap sampleOverlap_reach
    (by decide +kernel) (fun _ _ _ _ hsame => plainDigest_injective hsame) _ (by decide +kernel)
    rfl _ _ rfl (bySequence_ordered _)

end LedgerAccounting
