/-
  File:      LedgerAccounting/Lib/Inserts.lean
  Subject:   A table that transactions of many sessions only insert into, under a unique key and a
             foreign key into the table itself.

  The rows of an open transaction are seen by its own session only; its keys are taken for all.

  * `Sound.change`: what the constraints say of the rows holds after every statement.
  * `Change.frame`: a statement of one session leaves the rows of every other session as they are.
  * `Sound.one_writer`: a key that was committed has one writer.
-/
import Mathlib.Data.List.Nodup
import Mathlib.Data.List.Perm.Basic

namespace Inserts

variable {ι κ ρ : Type}

/-! ## 1. Rows and transactions -/

/-- The rows at the start, those committed since, in order, and those of the open transactions, with
    the session that inserted them. -/
structure Db (ι ρ : Type) where
  base : List ρ
  log : List (ι × ρ)
  opened : List (ι × ρ)

def Db.start (base : List ρ) : Db ι ρ := ⟨base, [], []⟩

/-- The committed rows. -/
def Db.table (d : Db ι ρ) : List ρ := d.base ++ d.log.map Prod.snd

/-- The rows inserted since the start whose transaction has not been discarded. -/
def Db.inserted (d : Db ι ρ) : List (ι × ρ) := d.log ++ d.opened

def Db.insert (d : Db ι ρ) (i : ι) (r : ρ) : Db ι ρ := { d with opened := d.opened ++ [(i, r)] }

@[simp] theorem table_start (base : List ρ) : (Db.start base : Db ι ρ).table = base :=
  List.append_nil base

section Sessions

variable [DecidableEq ι]

/-- What the session has committed. -/
def Db.committed (d : Db ι ρ) (i : ι) : List (ι × ρ) := d.log.filter fun p => p.1 = i

/-- What the session has inserted in its open transaction. -/
def Db.own (d : Db ι ρ) (i : ι) : List (ι × ρ) := d.opened.filter fun p => p.1 = i

/-- The rows a statement of the session sees. -/
def Db.visible (d : Db ι ρ) (i : ι) : List ρ := d.table ++ (d.own i).map Prod.snd

def Db.discard (d : Db ι ρ) (i : ι) : Db ι ρ :=
  { d with opened := d.opened.filter fun p => p.1 ≠ i }

def Db.commit (d : Db ι ρ) (i : ι) : Db ι ρ :=
  { d with log := d.log ++ d.own i, opened := d.opened.filter fun p => p.1 ≠ i }

/-! ## 2. What the operations do to the rows of a session -/

variable (d : Db ι ρ) (r : ρ) {i j : ι}

@[simp] theorem table_commit : (d.commit i).table = d.visible i := by
  unfold Db.commit Db.visible Db.table
  rw [List.map_append, List.append_assoc]

theorem mem_own {p : ι × ρ} : p ∈ d.own i ↔ p ∈ d.opened ∧ p.1 = i := by
  unfold Db.own
  rw [List.mem_filter, decide_eq_true_iff]

theorem mem_discard {p : ι × ρ} : p ∈ (d.discard i).opened ↔ p ∈ d.opened ∧ p.1 ≠ i := by
  unfold Db.discard
  rw [List.mem_filter, decide_eq_true_iff]

theorem mem_visible {r : ρ} : r ∈ d.visible i ↔ r ∈ d.table ∨ (i, r) ∈ d.opened := by
  unfold Db.visible
  rw [List.mem_append, List.mem_map]
  refine or_congr_right ⟨fun h => ?_, fun h => ⟨(i, r), (mem_own d).mpr ⟨h, rfl⟩, rfl⟩⟩
  obtain ⟨⟨i', r'⟩, hp, rfl⟩ := h
  obtain ⟨hopened, rfl⟩ := (mem_own d).mp hp
  exact hopened

theorem own_insert : (d.insert i r).own i = d.own i ++ [(i, r)] := by
  unfold Db.insert Db.own
  rw [List.filter_append, List.filter_singleton]
  simp

theorem own_insert_ne (h : i ≠ j) : (d.insert i r).own j = d.own j := by
  unfold Db.insert Db.own
  rw [List.filter_append, List.filter_singleton]
  simp [h]

theorem own_discard : (d.discard i).own i = [] := by
  unfold Db.discard Db.own
  rw [List.filter_filter, List.filter_eq_nil_iff]
  simp

theorem own_discard_ne (h : i ≠ j) : (d.discard i).own j = d.own j := by
  unfold Db.discard Db.own
  rw [List.filter_filter]
  refine List.filter_congr fun p _ => ?_
  by_cases hp : p.1 = j
  · simp [hp, Ne.symm h]
  · simp [hp]

theorem inserted_discard : (d.discard i).inserted ⊆ d.inserted := by
  intro p hp
  refine (List.mem_append.mp hp).elim (List.mem_append_left _) fun hopened => ?_
  exact List.mem_append_right _ ((mem_discard d).mp hopened).1

theorem inserted_commit : (d.commit i).inserted ⊆ d.inserted := by
  intro p hp
  rcases List.mem_append.mp hp with hlog | hopened
  · refine (List.mem_append.mp hlog).elim (List.mem_append_left _) fun hown => ?_
    exact List.mem_append_right _ ((mem_own d).mp hown).1
  · exact List.mem_append_right _ ((mem_discard d).mp hopened).1

theorem committed_commit_ne (h : i ≠ j) : (d.commit i).committed j = d.committed j := by
  have hnone : (d.own i).filter (fun p => p.1 = j) = [] := by
    refine List.filter_eq_nil_iff.mpr fun p hp => ?_
    rw [decide_eq_true_iff, ((mem_own d).mp hp).2]
    exact h
  unfold Db.commit Db.committed
  rw [List.filter_append, hnone, List.append_nil]

end Sessions

/-! ## 3. The constraints -/

variable (key : ρ → κ) (ref : ρ → Option κ)

def HasKey (rows : List ρ) (k : κ) : Prop := ∃ r ∈ rows, key r = k

/-- The row refers to nothing, to itself or to one of the rows. -/
def Refers (rows : List ρ) (r : ρ) : Prop := ∀ k, ref r = some k → k = key r ∨ HasKey key rows k

/-- No row, committed or not, has the key. -/
def Db.Free (d : Db ι ρ) (k : κ) : Prop :=
  ¬ HasKey key d.table k ∧ ∀ p ∈ d.opened, key p.2 ≠ k

section Mono

variable {key ref} {rows rows' : List ρ}

theorem HasKey.mono (h : rows ⊆ rows') {k : κ} (hk : HasKey key rows k) : HasKey key rows' k := by
  obtain ⟨r, hr, hkey⟩ := hk
  exact ⟨r, h hr, hkey⟩

theorem Refers.mono (h : rows ⊆ rows') {r : ρ} (hr : Refers key ref rows r) :
    Refers key ref rows' r :=
  fun k hk => (hr k hk).imp_right fun hkey => hkey.mono h

end Mono

variable [DecidableEq ι]

/-- What a statement of the session can do to the rows. -/
inductive Change (i : ι) (d : Db ι ρ) : Db ι ρ → Prop where
  | keep : Change i d d
  | insert (r : ρ) (free : d.Free key (key r)) (refers : Refers key ref (d.visible i) r) :
      Change i d (d.insert i r)
  | discard : Change i d (d.discard i)
  | commit : Change i d (d.commit i)

/-- **What the constraints say of all rows**: keys are distinct, those of open transactions as well,
    and what a session sees has no dangling reference. -/
structure Sound (d : Db ι ρ) : Prop where
  unique : ((d.table ++ d.opened.map Prod.snd).map key).Nodup
  closed : ∀ r ∈ d.table, Refers key ref d.table r
  closedOwn : ∀ p ∈ d.opened, Refers key ref (d.visible p.1) p.2

variable {key ref} {d d' : Db ι ρ} {i j : ι}

theorem table_visible (d : Db ι ρ) (i : ι) : d.table ⊆ d.visible i := List.subset_append_left _ _

theorem visible_insert (d : Db ι ρ) (i j : ι) (r : ρ) : d.visible j ⊆ (d.insert i r).visible j := by
  intro r' hr'
  rw [mem_visible] at hr' ⊢
  exact hr'.imp_right fun h => List.mem_append_left _ h

theorem visible_discard (h : j ≠ i) : d.visible j ⊆ (d.discard i).visible j := by
  intro r hr
  rw [mem_visible] at hr ⊢
  exact hr.imp_right fun hopened => (mem_discard d).mpr ⟨hopened, h⟩

theorem visible_commit (h : j ≠ i) : d.visible j ⊆ (d.commit i).visible j := by
  intro r hr
  rw [mem_visible] at hr ⊢
  refine hr.imp (fun htable => ?_) fun hopened => (mem_discard d).mpr ⟨hopened, h⟩
  rw [table_commit]
  exact table_visible d i htable

/-- The rows of an ended transaction and those of the others are the open rows. -/
theorem opened_perm (d : Db ι ρ) (i : ι) : (d.own i ++ (d.discard i).opened).Perm d.opened := by
  have h := List.filter_append_perm (fun p : ι × ρ => decide (p.1 = i)) d.opened
  simpa [Db.own, Db.discard] using h

theorem Sound.start {base : List ρ} (hkeys : (base.map key).Nodup)
    (hrefs : ∀ r ∈ base, Refers key ref base r) : Sound key ref (Db.start base : Db ι ρ) where
  unique := by
    rw [table_start]
    simpa [Db.start] using hkeys
  closed := by
    rw [table_start]
    exact hrefs
  closedOwn p hp := absurd hp List.not_mem_nil

/-- **The constraints hold after every statement.** -/
theorem Sound.change (h : Sound key ref d) (hc : Change key ref i d d') : Sound key ref d' := by
  cases hc with
  | keep => exact h
  | insert r free refers =>
    refine ⟨?_, h.closed, fun p hp => ?_⟩
    · have hrows : (d.insert i r).table ++ (d.insert i r).opened.map Prod.snd =
          (d.table ++ d.opened.map Prod.snd) ++ [r] := by
        simp [Db.insert, Db.table]
      rw [hrows, List.map_append, List.nodup_append]
      refine ⟨h.unique, List.nodup_singleton _, fun k hk k' hk' heq => ?_⟩
      rw [List.map_singleton, List.mem_singleton] at hk'
      subst heq hk'
      obtain ⟨r', hr', hkey⟩ := List.mem_map.mp hk
      rcases List.mem_append.mp hr' with hr' | hr'
      · exact free.1 ⟨r', hr', hkey⟩
      · obtain ⟨p, hp, rfl⟩ := List.mem_map.mp hr'
        exact free.2 p hp hkey
    · rcases List.mem_append.mp hp with hp | hp
      · exact (h.closedOwn p hp).mono (visible_insert d i p.1 r)
      · rw [List.mem_singleton.mp hp]
        exact refers.mono (visible_insert d i i r)
  | discard =>
    refine ⟨?_, h.closed, fun p hp => ?_⟩
    · refine h.unique.sublist ((List.Sublist.append_left ?_ _).map key)
      exact List.filter_sublist.map Prod.snd
    · obtain ⟨hopened, hp⟩ := (mem_discard d).mp hp
      exact (h.closedOwn p hopened).mono (visible_discard hp)
  | commit =>
    refine ⟨?_, fun r hr => ?_, fun p hp => ?_⟩
    · rw [table_commit]
      have hperm : (d.visible i ++ (d.commit i).opened.map Prod.snd).Perm
          (d.table ++ d.opened.map Prod.snd) := by
        unfold Db.visible
        rw [List.append_assoc, ← List.map_append]
        exact ((opened_perm d i).map Prod.snd).append_left _
      exact (hperm.map key).nodup_iff.mpr h.unique
    · rw [table_commit] at hr ⊢
      rcases (mem_visible d).mp hr with hr | hr
      · exact (h.closed r hr).mono (table_visible d i)
      · exact h.closedOwn _ hr
    · obtain ⟨hopened, hp⟩ := (mem_discard d).mp hp
      exact (h.closedOwn p hopened).mono (visible_commit hp)

theorem Change.grows (hc : Change key ref i d d') : d'.base = d.base ∧ d.log <+: d'.log := by
  cases hc with
  | keep => exact ⟨rfl, List.prefix_rfl⟩
  | insert r free refers => exact ⟨rfl, List.prefix_rfl⟩
  | discard => exact ⟨rfl, List.prefix_rfl⟩
  | commit => exact ⟨rfl, List.prefix_append _ _⟩

/-- **A committed key has one writer.** -/
theorem Sound.one_writer (h : Sound key ref d) {p q : ι × ρ} (hp : p ∈ d.log) (hq : q ∈ d.log)
    (hkey : key p.2 = key q.2) : p = q := by
  have hlog : (d.log.map fun p => key p.2).Nodup := by
    have hsub : (d.log.map Prod.snd).Sublist (d.table ++ d.opened.map Prod.snd) :=
      (List.sublist_append_right _ _).trans (List.sublist_append_left _ _)
    have hkeys := h.unique.sublist (hsub.map key)
    rw [List.map_map] at hkeys
    exact hkeys
  exact List.inj_on_of_nodup_map hlog hp hq hkey

/-- A committed key is not one of the start. -/
theorem Sound.not_base (h : Sound key ref d) {p : ι × ρ} (hp : p ∈ d.log) :
    ¬ HasKey key d.base (key p.2) := by
  rintro ⟨r, hr, hkey⟩
  have hnodup := h.unique
  unfold Db.table at hnodup
  rw [List.append_assoc, List.map_append, List.nodup_append] at hnodup
  refine hnodup.2.2 _ (List.mem_map_of_mem hr) _ (List.mem_map_of_mem ?_) hkey
  exact List.mem_append_left _ (List.mem_map_of_mem hp)

/-! ## 4. What other sessions leave alone -/

/-- What session `i` may rely on: what it has committed and inserted stays, and no committed row is
    lost. -/
structure Frame (i : ι) (d d' : Db ι ρ) : Prop where
  base : d'.base = d.base
  log : d.log <+: d'.log
  committed : d'.committed i = d.committed i
  own : d'.own i = d.own i

theorem Frame.refl (i : ι) (d : Db ι ρ) : Frame i d d := ⟨rfl, List.prefix_rfl, rfl, rfl⟩

theorem Frame.trans {d'' : Db ι ρ} (h : Frame i d d') (h' : Frame i d' d'') : Frame i d d'' :=
  ⟨h'.base.trans h.base, h.log.trans h'.log, h'.committed.trans h.committed,
    h'.own.trans h.own⟩

theorem Frame.table (h : Frame i d d') : d.table ⊆ d'.table := by
  intro r hr
  unfold Db.table at hr ⊢
  rw [h.base]
  refine (List.mem_append.mp hr).elim (List.mem_append_left _) fun hr => ?_
  exact List.mem_append_right _ (List.map_subset Prod.snd h.log.subset hr)

/-- **A statement of one session leaves the rows of every other session as they are.** -/
theorem Change.frame (hij : i ≠ j) (hc : Change key ref i d d') : Frame j d d' := by
  obtain ⟨hbase, hlog⟩ := hc.grows
  refine ⟨hbase, hlog, ?_, ?_⟩
  · cases hc with
    | keep => rfl
    | insert r free refers => rfl
    | discard => rfl
    | commit => exact committed_commit_ne d hij
  · cases hc with
    | keep => rfl
    | insert r free refers => exact own_insert_ne d r hij
    | discard => exact own_discard_ne d hij
    | commit => exact own_discard_ne d hij

end Inserts
