/-
  File:      LedgerAccounting/Pool/Migrations.lean
  Subject:   `run_migrations`: three scripts applied one after another, over any number of
             attempts that may fail or stop at any of them.

  The init script adds a constraint by name and fails with code 42710 where it is there; the other
  two scripts may be run again. `run_migrations` takes an "already applied" code of any script as
  the end of the work.

  * `started_run`: from a front of the scripts, every run of attempts ends at one, and which one.
  * `migrations_complete_iff`: when a reported success means that all three are in effect.
  * `migrations_complete_iff_stage`: the same in terms of what befell the attempts before.
-/
import LedgerAccounting.Lib.Runs
import LedgerAccounting.Lib.Script
import Mathlib.Data.Finset.Basic

namespace LedgerAccounting

open Runs

/-! ## 1. The schema and the scripts -/

/-- What the scripts create or set in a database. -/
structure Schema where
  tables : Finset String
  constraints : Finset String
  defaultIsolation : String
  triggers : Finset String
  deriving DecidableEq

inductive Migration where
  | initSchema
  | setSerializable
  | immutableEntries
  deriving DecidableEq, Repr

/-- The name of the script in the errors of `run_migrations`. -/
def Migration.name : Migration → String
  | .initSchema => "init_schema"
  | .setSerializable => "set_serializable"
  | .immutableEntries => "immutable_entries"

/-- An error of the driver: the code of a database error, if it is one, and its text. -/
structure SqlError where
  code : Option String
  text : String
  deriving DecidableEq, Repr

def isAlreadyApplied (err : SqlError) : Bool :=
  match err.code with
  | some code => code == "42710" || code == "42P07"
  | none => false

def initTables : Finset String :=
  {"chart_of_accounts", "accounts", "postings", "entries", "balance_snapshots", "hash_chain"}

/-- The triggers that reject `UPDATE` and `DELETE` on `entries`. -/
def entriesTriggers : Finset String := {"entries_no_update", "entries_no_delete"}

/-- The script, applied as a whole or not at all. -/
def Migration.execute : Migration → Schema → Except SqlError Schema
  | .initSchema, s =>
    if "entries_account_fk" ∈ s.constraints then
      .error ⟨some "42710", "constraint \"entries_account_fk\" already exists"⟩
    else
      .ok { s with
        tables := s.tables ∪ initTables
        constraints := insert "entries_account_fk" s.constraints }
  | .setSerializable, s => .ok { s with defaultIsolation := "serializable" }
  | .immutableEntries, s =>
    if "entries" ∈ s.tables then .ok { s with triggers := s.triggers ∪ entriesTriggers }
    else .error ⟨some "42P01", "relation \"entries\" does not exist"⟩

/-- What the script creates or sets is there. -/
def Schema.InEffect (s : Schema) : Migration → Prop
  | .initSchema => initTables ⊆ s.tables ∧ "entries_account_fk" ∈ s.constraints
  | .setSerializable => s.defaultIsolation = "serializable"
  | .immutableEntries => entriesTriggers ⊆ s.triggers

/-- All three scripts are in effect. -/
def Schema.Complete (s : Schema) : Prop := ∀ m, s.InEffect m

/-- The schema after the script, if it can be applied. -/
def Schema.after (s : Schema) (m : Migration) : Schema :=
  match m.execute s with
  | .ok t => t
  | .error _ => s

/-! ## 2. `run_migrations` -/

/-- One of the three blocks of `run_migrations`, and what follows it. -/
def migrationStep (m : Migration)
    (next : Script Migration (fun _ => Except SqlError Unit) (Except String Unit)) :
    Script Migration (fun _ => Except SqlError Unit) (Except String Unit) := do
  match ← Script.perform m with
  | .error e =>
    if isAlreadyApplied e then return .ok ()
    else return .error s!"migration {m.name} failed: {e.text}"
  | .ok () => next

/-- `Store::run_migrations` on a store that has a pool. -/
def runMigrations : Script Migration (fun _ => Except SqlError Unit) (Except String Unit) :=
  migrationStep .initSchema <|
  migrationStep .setSerializable <|
  migrationStep .immutableEntries <|
  return .ok ()

/-! ## 3. Attempts -/

/-- What happens to one script in an attempt: the database answers it; it fails with an error of
    another kind, applied or not; or the process stops at it, before or after it is applied. -/
inductive Fate where
  | answered
  | fails (e : SqlError) (other : isAlreadyApplied e = false) (applied : Bool)
  | stops (applied : Bool)

/-- The script is applied, if it can be. -/
def Fate.applies : Fate → Bool
  | .answered => true
  | .fails _ _ applied => applied
  | .stops applied => applied

/-- The script run under the fates of its migrations: what it returns, unless it stopped, and the
    schema it leaves. -/
def attemptScript {α : Type} (fates : Migration → Fate) :
    Script Migration (fun _ => Except SqlError Unit) α → Schema → Option α × Schema
  | .ret a, s => (some a, s)
  | .call m k, s =>
    match fates m with
    | .answered =>
      match m.execute s with
      | .ok t => attemptScript fates (k (.ok ())) t
      | .error e => attemptScript fates (k (.error e)) s
    | .fails e _ applied => attemptScript fates (k (.error e)) (if applied then s.after m else s)
    | .stops applied => (none, if applied then s.after m else s)

/-- One attempt to run the migrations. -/
def attempt (fates : Migration → Fate) (s : Schema) : Option (Except String Unit) × Schema :=
  attemptScript fates runMigrations s

/-- The migrations in their order. -/
def migrations : List Migration := [.initSchema, .setSerializable, .immutableEntries]

/-- The schema with the first `n` of the three migrations applied. -/
def Schema.started (s : Schema) (n : Nat) : Schema := (migrations.take n).foldl Schema.after s

/-- How many of the scripts an attempt applies that begins with none applied. -/
def applied (fates : Migration → Fate) : List Migration → Nat
  | [] => 0
  | m :: rest =>
    match fates m with
    | .answered => applied fates rest + 1
    | fate => if fate.applies then 1 else 0

/-- How many are applied after an attempt, where `n` were before: where the first was, the attempt
    ends at it. -/
def stage (n : Nat) (fates : Migration → Fate) : Nat :=
  if n = 0 then applied fates migrations else n

/-! ## 4. What one attempt does -/

/-- A script that can be applied moves the schema on. -/
theorem execute_after {m : Migration} {s t : Schema} (h : m.execute s = .ok t) :
    s.after m = t := by
  unfold Schema.after
  rw [h]

/-- One block: it goes on after its script, or ends in one of four ways. -/
theorem attempt_step (fates : Migration → Fate) (m : Migration)
    (next : Script Migration (fun _ => Except SqlError Unit) (Except String Unit)) (s : Schema) :
    (fates m = .answered ∧ ∃ t, m.execute s = .ok t ∧
      attemptScript fates (migrationStep m next) s = attemptScript fates next t) ∨
    (fates m = .answered ∧ ∃ e, m.execute s = .error e ∧
      attemptScript fates (migrationStep m next) s =
        (some (if isAlreadyApplied e then .ok ()
          else .error s!"migration {m.name} failed: {e.text}"), s)) ∨
    fates m ≠ .answered ∧ ∃ o : Option (Except String Unit), o ≠ some (.ok ()) ∧
      attemptScript fates (migrationStep m next) s =
        (o, if (fates m).applies then s.after m else s) := by
  have hcall : attemptScript fates (migrationStep m next) s =
      attemptScript fates (.call m fun r =>
        match r with
        | .error e =>
          if isAlreadyApplied e then .ret (.ok ())
          else .ret (.error s!"migration {m.name} failed: {e.text}")
        | .ok () => next) s := rfl
  rw [hcall]
  cases hf : fates m with
  | answered =>
    cases hx : m.execute s with
    | ok t => exact Or.inl ⟨rfl, t, rfl, by simp only [attemptScript, hf, hx]⟩
    | error e =>
      refine Or.inr (Or.inl ⟨rfl, e, rfl, ?_⟩)
      simp only [attemptScript, hf, hx]
      split <;> rfl
  | fails e other applied =>
    refine Or.inr (Or.inr ⟨by simp, some (.error s!"migration {m.name} failed: {e.text}"),
      by simp, ?_⟩)
    simp only [attemptScript, hf, other, Bool.false_eq_true, if_false]
    rfl
  | stops applied =>
    refine Or.inr (Or.inr ⟨by simp, none, by simp, ?_⟩)
    simp only [attemptScript, hf]
    rfl

/-- **Where the init script has been applied an attempt changes nothing**, and it reports success
    as soon as that script is answered. -/
theorem attempt_present (fates : Migration → Fate) {s : Schema}
    (h : "entries_account_fk" ∈ s.constraints) :
    (attempt fates s).2 = s ∧
      ((attempt fates s).1 = some (.ok ()) ↔ fates .initSchema = .answered) := by
  have hexec : Migration.initSchema.execute s =
      .error ⟨some "42710", "constraint \"entries_account_fk\" already exists"⟩ := by
    simp only [Migration.execute, h, if_true]
  have hafter : s.after .initSchema = s := by
    unfold Schema.after
    rw [hexec]
  rcases attempt_step fates .initSchema _ s with
    ⟨_, t, ht, _⟩ | ⟨hf, e, he, hrun⟩ | ⟨hf, o, ho, hrun⟩
  · rw [hexec] at ht
    cases ht
  · rw [hexec] at he
    cases he
    unfold attempt runMigrations
    rw [hrun]
    exact ⟨rfl, iff_of_true rfl hf⟩
  · unfold attempt runMigrations
    rw [hrun, hafter]
    exact ⟨ite_self s, iff_of_false ho hf⟩

/-- The schemas the scripts leave, one after another, where none has been applied. -/
theorem started_shape {s : Schema} (h : "entries_account_fk" ∉ s.constraints) :
    s.started 1 = { s with
        tables := s.tables ∪ initTables
        constraints := insert "entries_account_fk" s.constraints } ∧
      s.started 2 = { s.started 1 with defaultIsolation := "serializable" } ∧
      s.started 3 = { s.started 2 with triggers := (s.started 2).triggers ∪ entriesTriggers } := by
  have h1 : s.started 1 = { s with
      tables := s.tables ∪ initTables
      constraints := insert "entries_account_fk" s.constraints } := by
    refine execute_after ?_
    simp only [Migration.execute, h, if_false]
  have h2 : s.started 2 = { s.started 1 with defaultIsolation := "serializable" } := rfl
  refine ⟨h1, h2, execute_after ?_⟩
  rw [show (Schema.after (Schema.after s .initSchema) .setSerializable) = s.started 2 from rfl,
    h2, h1]
  exact if_pos (Finset.mem_union_right _ (by decide))

/-- The scripts can be applied one after another where none has been. -/
theorem started_execute {s : Schema} (h : "entries_account_fk" ∉ s.constraints) :
    Migration.initSchema.execute s = .ok (s.started 1) ∧
      Migration.setSerializable.execute (s.started 1) = .ok (s.started 2) ∧
      Migration.immutableEntries.execute (s.started 2) = .ok (s.started 3) := by
  obtain ⟨h1, h2, h3⟩ := started_shape h
  refine ⟨?_, rfl, ?_⟩
  · rw [h1]
    exact if_neg h
  · rw [h3, h2, h1]
    exact if_pos (Finset.mem_union_right _ (by decide))

theorem applied_answered {fates : Migration → Fate} {m : Migration} (h : fates m = .answered)
    (rest : List Migration) : applied fates (m :: rest) = applied fates rest + 1 := by
  simp only [applied, h]

theorem applied_ends {fates : Migration → Fate} {m : Migration} (h : fates m ≠ .answered)
    (rest : List Migration) :
    applied fates (m :: rest) = if (fates m).applies then 1 else 0 := by
  cases hf : fates m with
  | answered => exact absurd hf h
  | fails e other applied => simp only [LedgerAccounting.applied, hf]
  | stops applied => simp only [LedgerAccounting.applied, hf]

/-- **Where the init script has not been applied an attempt applies a front of the three**, and
    all of them when it reports success. -/
theorem attempt_absent (fates : Migration → Fate) {s : Schema}
    (h : "entries_account_fk" ∉ s.constraints) :
    (attempt fates s).2 = s.started (applied fates migrations) ∧
      ((attempt fates s).1 = some (.ok ()) → applied fates migrations = 3) := by
  obtain ⟨hinit, hserializable, himmutable⟩ := started_execute h
  -- a block that stops leaves the schema before its script or after it
  have hstop : ∀ {m : Migration} {k : Nat} {moves : Bool},
      m.execute (s.started k) = .ok (s.started (k + 1)) →
      (if moves then (s.started k).after m else s.started k) =
        s.started (k + if moves then 1 else 0) := by
    intro m k moves hm
    cases moves with
    | false => rfl
    | true => exact execute_after hm
  unfold attempt runMigrations migrations
  rcases attempt_step fates .initSchema _ s with
    ⟨hf, t, ht, hrun⟩ | ⟨_, e, he, _⟩ | ⟨hf, o, ho, hrun⟩
  · rw [hrun, applied_answered hf]
    rw [hinit] at ht
    cases ht
    rcases attempt_step fates .setSerializable _ (s.started 1) with
      ⟨hf, t, ht, hrun⟩ | ⟨_, e, he, _⟩ | ⟨hf, o, ho, hrun⟩
    · rw [hrun, applied_answered hf]
      rw [hserializable] at ht
      cases ht
      rcases attempt_step fates .immutableEntries _ (s.started 2) with
        ⟨hf, t, ht, hrun⟩ | ⟨_, e, he, _⟩ | ⟨hf, o, ho, hrun⟩
      · rw [hrun, applied_answered hf]
        rw [himmutable] at ht
        cases ht
        exact ⟨rfl, fun _ => rfl⟩
      · rw [himmutable] at he
        cases he
      · rw [hrun, applied_ends hf, hstop himmutable]
        refine ⟨congrArg s.started ?_, fun hok => absurd hok ho⟩
        omega
    · rw [hserializable] at he
      cases he
    · rw [hrun, applied_ends hf, hstop hserializable]
      exact ⟨congrArg s.started (Nat.add_comm _ _), fun hok => absurd hok ho⟩
  · rw [hinit] at he
    cases he
  · rw [hrun, applied_ends hf]
    exact ⟨(hstop (k := 0) hinit).trans (congrArg s.started (Nat.zero_add _)),
      fun hok => absurd hok ho⟩

/-! ## 5. Runs of attempts -/

/-- All three scripts, applied where none has been, are in effect. -/
theorem started_complete {s : Schema} (h : "entries_account_fk" ∉ s.constraints) :
    (s.started 3).Complete := by
  obtain ⟨h1, h2, h3⟩ := started_shape h
  intro m
  cases m with
  | initSchema =>
    rw [h3, h2, h1]
    exact ⟨Finset.subset_union_right, Finset.mem_insert_self _ _⟩
  | setSerializable =>
    rw [h3, h2]
    rfl
  | immutableEntries =>
    rw [h3]
    exact Finset.subset_union_right

theorem started_beyond (s : Schema) (n : Nat) : s.started (n + 3) = s.started 3 := by
  unfold Schema.started migrations
  rw [List.take_of_length_le (by simp), List.take_of_length_le (by simp)]

/-- From the init script on, the constraint it adds is there. -/
theorem started_constraint {s : Schema} (h : "entries_account_fk" ∉ s.constraints) :
    ∀ n, 1 ≤ n → "entries_account_fk" ∈ (s.started n).constraints := by
  obtain ⟨h1, h2, h3⟩ := started_shape h
  have hfirst : "entries_account_fk" ∈ (s.started 1).constraints := by
    rw [h1]
    exact Finset.mem_insert_self _ _
  intro n hn
  match n with
  | 1 => exact hfirst
  | 2 => exact hfirst
  | n + 3 =>
    rw [started_beyond, h3]
    exact hfirst

/-- **From a front of the three scripts every run of attempts ends at a front of them**: what the
    first attempt that applied one has left undone stays undone. -/
theorem started_run {s : Schema} (h : "entries_account_fk" ∉ s.constraints) (n : Nat)
    (attempts : List (Migration → Fate)) :
    run attempt attempts (s.started n) = s.started (attempts.foldl stage n) := by
  induction attempts generalizing n with
  | nil => rfl
  | cons fates attempts ih =>
    have hone : (attempt fates (s.started n)).2 = s.started (stage n fates) := by
      rcases Nat.eq_zero_or_pos n with rfl | hn
      · exact (attempt_absent fates h).1
      · rw [(attempt_present fates (started_constraint h n hn)).1, stage, if_neg hn.ne']
    rw [run_cons, hone, List.foldl_cons]
    exact ih _

/-- One attempt: a success means that all three are in effect, if and only if the schema was
    complete where the init script is answered that it has been applied. -/
theorem attempt_ok_complete_iff (fates : Migration → Fate) (s : Schema) :
    ((attempt fates s).1 = some (.ok ()) → (attempt fates s).2.Complete) ↔
      (fates .initSchema = .answered → "entries_account_fk" ∈ s.constraints → s.Complete) := by
  by_cases h : "entries_account_fk" ∈ s.constraints
  · obtain ⟨hstate, hok⟩ := attempt_present fates h
    rw [hstate, hok]
    simp only [h, forall_const]
  · refine iff_of_true (fun hok => ?_) fun _ hc => absurd hc h
    obtain ⟨hstate, hall⟩ := attempt_absent fates h
    rw [hstate, hall hok]
    exact started_complete h

/-- **When a reported success means that the migrations are complete**, from any front of the three
    scripts and for any sequence of attempts: every attempt that returns `Ok` leaves all three in
    effect, if and only if all three are in effect before every attempt whose init script is
    answered, by the database that has its constraint, that it has been applied. -/
theorem migrations_complete_iff (base : Schema) (n : Nat) (attempts : List (Migration → Fate)) :
    (∀ earlier fates later, attempts = earlier ++ fates :: later →
      let before := run attempt earlier (base.started n)
      (attempt fates before).1 = some (.ok ()) → (attempt fates before).2.Complete) ↔
    ∀ earlier fates later, attempts = earlier ++ fates :: later →
      let before := run attempt earlier (base.started n)
      fates .initSchema = .answered → "entries_account_fk" ∈ before.constraints →
        before.Complete := by
  constructor
  · intro h earlier fates later hsplit
    exact (attempt_ok_complete_iff fates _).mp (h earlier fates later hsplit)
  · intro h earlier fates later hsplit
    exact (attempt_ok_complete_iff fates _).mpr (h earlier fates later hsplit)

/-- The front of the scripts that is complete, in a database that had no trigger before. -/
theorem started_complete_iff {s : Schema} (h : "entries_account_fk" ∉ s.constraints)
    (htriggers : ¬ entriesTriggers ⊆ s.triggers) (n : Nat) : (s.started n).Complete ↔ 3 ≤ n := by
  obtain ⟨h1, h2, _⟩ := started_shape h
  match n with
  | 0 => exact iff_of_false (fun hc => h (hc .initSchema).2) (by decide)
  | 1 =>
    refine iff_of_false (fun hc => htriggers ?_) (by decide)
    have hthere : entriesTriggers ⊆ (s.started 1).triggers := hc .immutableEntries
    rwa [h1] at hthere
  | 2 =>
    refine iff_of_false (fun hc => htriggers ?_) (by decide)
    have hthere : entriesTriggers ⊆ (s.started 2).triggers := hc .immutableEntries
    rwa [h2, h1] at hthere
  | n + 3 =>
    rw [started_beyond]
    exact iff_of_true (started_complete h) (Nat.le_add_left 3 n)

/-- **When a reported success means that the migrations are complete**, for a database that had
    neither the constraint nor the triggers before the first script: no attempt whose init script is
    answered begins where the scripts have been applied in part, that is, behind one that applied
    some and not all. -/
theorem migrations_complete_iff_stage {base : Schema}
    (hconstraint : "entries_account_fk" ∉ base.constraints)
    (htriggers : ¬ entriesTriggers ⊆ base.triggers) (n : Nat)
    (attempts : List (Migration → Fate)) :
    (∀ earlier fates later, attempts = earlier ++ fates :: later →
      let before := run attempt earlier (base.started n)
      (attempt fates before).1 = some (.ok ()) → (attempt fates before).2.Complete) ↔
    ∀ earlier fates later, attempts = earlier ++ fates :: later →
      fates .initSchema = .answered → earlier.foldl stage n = 0 ∨ 3 ≤ earlier.foldl stage n := by
  refine forall₄_congr fun earlier fates later _ => ?_
  simp only [started_run hconstraint, attempt_ok_complete_iff,
    started_complete_iff hconstraint htriggers]
  refine imp_congr_right fun _ => ?_
  rcases Nat.eq_zero_or_pos (earlier.foldl stage n) with hzero | hpos
  · rw [hzero]
    exact iff_of_true (fun hthere => absurd hthere hconstraint) (Or.inl rfl)
  · simp only [started_constraint hconstraint _ hpos, forall_const, hpos.ne', false_or]

/-- A new database. -/
def emptySchema : Schema where
  tables := ∅
  constraints := ∅
  defaultIsolation := "read committed"
  triggers := ∅

/-- **An attempt that resumes after the init script reports success without the triggers**: the
    first attempt stops behind that script, the second finds it applied. -/
theorem resumed_attempt_incomplete :
    let first : Migration → Fate := fun m =>
      if m = .setSerializable then .stops false else .answered
    let second : Migration → Fate := fun _ => .answered
    let before := run attempt [first] (emptySchema.started 0)
    (attempt second before).1 = some (.ok ()) ∧ (attempt second before).2.triggers = ∅ ∧
      ¬ (attempt second before).2.Complete := by
  intro first second before
  have hok : (attempt second before).1 = some (.ok ()) := rfl
  have htriggers : (attempt second before).2.triggers = ∅ := rfl
  refine ⟨hok, htriggers, fun hcomplete => ?_⟩
  have hmissing : entriesTriggers ⊆ (attempt second before).2.triggers :=
    hcomplete .immutableEntries
  rw [htriggers] at hmissing
  exact absurd hmissing (by decide)

end LedgerAccounting
