/-
  File:      LedgerAccounting/Pool/Cluster.lean
  Subject:   The replicas as processes that stop and are started again, while clients call `post`
             and retry their calls.

  A call is taken up by a running process and issues its statements as before. A process may stop
  at any moment: its calls get no answer and its open transactions are rolled back; a commit that
  was on its way is one that was applied before the stop, or one that was not. A process that is
  started again hydrates its cache.

  * `Cluster.Sound`: what holds in every run: the invariant of concurrent calls, and that every call
    in progress keeps it.
  * `cluster_sound`: it holds in every state a run reaches.
  * `cluster_invariant`: so does what every statement keeps.
-/
import LedgerAccounting.Pool.PostSpec
import LedgerAccounting.Pool.Reads

namespace LedgerAccounting

open Script

/-! ## 1. Calls and processes -/

/-- What is left of a call of `post`. -/
abbrev PostScript := Script Stmt Reply (Except PostError (PostingResponse × Bool))

/-- A call of `post`: not taken up yet, running (or answered, once its script has ended), or ended
    without an answer by the stop of its process. -/
inductive Phase where
  | waiting
  | running (p : PostScript)
  | stopped

/-- The call has been taken up and has neither been answered nor stopped. -/
def Phase.inProgress : Phase → Bool
  | .running (.call _ _) => true
  | _ => false

/-- The call when its process stops. -/
def Phase.stop : Phase → Phase
  | .running (.call _ _) => .stopped
  | phase => phase

/-- The world, the processes that run, the calls; and of the history: the audit events that were
    recorded in the `audit_events` of some process, and the calls whose commit was applied and
    that were then told that it had failed, or stopped before their end. -/
structure Cluster where
  world : World
  up : Nat → Bool
  phase : Nat → Phase
  recorded : List AuditEvent
  lost : List Nat

/-- Nothing has been called yet. -/
def Cluster.start (base : Tables) (inner : Nat → LedgerState) : Cluster where
  world := World.start base inner
  up _ := true
  phase _ := .waiting
  recorded := []
  lost := []

/-- No post is in progress. -/
def Cluster.Idle (c : Cluster) : Prop := ∀ i, (c.phase i).inProgress = false

/-- The statement was a commit that was applied and is answered with an error. -/
def unacknowledged : (o : Stmt) → Reply o → World → World → Bool
  | .commit, .error _, w, w' => w.log.length < w'.log.length
  | _, _, _, _ => false

section Steps

variable (digest : ByteArray → String) (salt : String) (calls : Nat → PoolCall)
  (replica : Nat → Nat)

/-- Call `i` is taken up by its process. -/
def Cluster.begin (c : Cluster) (i : Nat) : Cluster :=
  { c with
    phase := Function.update c.phase i (.running
      (postPool digest salt (calls i).sup (calls i).sink (calls i).req)) }

/-- The events that process `p` has recorded between two worlds. -/
def newEvents (p : Nat) (w w' : World) : List AuditEvent :=
  (w'.inner p).auditEvents.drop (w.inner p).auditEvents.length

/-- Call `i` has issued `o`, was answered `r` and goes on with `rest`. -/
def Cluster.issued (c : Cluster) (i : Nat) (o : Stmt) (r : Reply o) (w : World)
    (rest : PostScript) : Cluster :=
  { c with
    world := w
    phase := Function.update c.phase i (.running rest)
    recorded := c.recorded ++ newEvents (replica i) c.world w
    lost := c.lost ++ if unacknowledged o r c.world w then [i] else [] }

/-- The open transactions of the process are rolled back. -/
def World.stopProcess (w : World) (p : Nat) : World :=
  (w.txs.keys.filter fun i => replica i = p).foldl World.discard w

/-- Process `p` has stopped, and with it all its calls. -/
def Cluster.stop (c : Cluster) (p : Nat) : Cluster :=
  { c with
    world := c.world.stopProcess replica p
    up := Function.update c.up p false
    phase := fun i => if replica i = p then (c.phase i).stop else c.phase i
    lost := c.lost ++ (c.world.log.map (·.session)).filter fun i =>
      replica i = p && (c.phase i).inProgress }

/-- The state of process `p` is `s`. -/
def World.setInner (w : World) (p : Nat) (s : LedgerState) : World :=
  { w with inner := Function.update w.inner p s }

/-- Process `p` runs again, with the state that `hydrate` has built. -/
def Cluster.restart (c : Cluster) (p : Nat) (s : LedgerState) : Cluster :=
  { c with
    world := c.world.setInner p s
    up := Function.update c.up p true }

/-- One step of the cluster. Nothing is assumed of what the queries of `hydrate` answer. -/
inductive ClusterStep (c : Cluster) : Cluster → Prop where
  | begin (i : Nat) (waits : c.phase i = .waiting) (up : c.up (replica i) = true) :
      ClusterStep c (c.begin digest salt calls i)
  | issue (i : Nat) (o : Stmt) (k : Reply o → PostScript) (r : Reply o) (w : World)
      (next : c.phase i = .running (.call o k)) (exec : Exec replica i o c.world r w) :
      ClusterStep c (c.issued replica i o r w (k r))
  | stop (p : Nat) (up : c.up p = true) : ClusterStep c (c.stop replica p)
  | restart (p : Nat) (reads : HydrateReads) (s : LedgerState) (down : c.up p = false)
      (hydrated : hydrate reads .new = .ok s) : ClusterStep c (c.restart p s)

/-- The states that runs from the given tables and caches reach. -/
abbrev ClusterReach (base : Tables) (inner : Nat → LedgerState) (c : Cluster) : Prop :=
  Relation.ReflTransGen (ClusterStep digest salt calls replica) (Cluster.start base inner) c

end Steps

/-! ## 2. The stop and the start of a process -/

section Processes

variable {digest : ByteArray → String} {salt : String} {calls : Nat → PoolCall}
  {replica : Nat → Nat} {w : World} {p : Nat}

/-- A change that only ends transactions, and none of the sessions that meet `others`. -/
structure Rolled (others : Nat → Prop) (w w' : World) : Prop where
  base : w'.base = w.base
  log : w'.log = w.log
  inner : w'.inner = w.inner
  emitted : w'.emitted = w.emitted
  rely : ∀ j, others j → Rely j w w'
  poolInv : ∀ {digest : ByteArray → String} {salt : String} {calls : Nat → PoolCall},
    PoolInv digest salt calls w → PoolInv digest salt calls w'

theorem rolled_discard {others : Nat → Prop} {i : Nat} (h : ¬ others i) (w : World) :
    Rolled others w (w.discard i) := by
  have hexec : Exec id i .rollback w () (w.discard i) := rfl
  refine ⟨rfl, rfl, rfl, rfl, fun j hj => exec_frame ?_ _ _ hexec, fun hI => ?_⟩
  · rintro rfl
    exact h hj
  · exact exec_poolInv hexec (by simp) hI

theorem rolled_foldl {others : Nat → Prop} {l : List Nat} (h : ∀ i ∈ l, ¬ others i) (w : World) :
    Rolled others w (l.foldl World.discard w) := by
  induction l generalizing w with
  | nil => exact ⟨rfl, rfl, rfl, rfl, fun j _ => Rely.refl j w, fun hI => hI⟩
  | cons i l ih =>
    rw [List.forall_mem_cons] at h
    have hfirst := rolled_discard h.1 w
    have hrest := ih h.2 (w.discard i)
    exact ⟨hrest.base.trans hfirst.base, hrest.log.trans hfirst.log,
      hrest.inner.trans hfirst.inner, hrest.emitted.trans hfirst.emitted,
      fun j hj => (hfirst.rely j hj).trans (hrest.rely j hj),
      fun hI => hrest.poolInv (hfirst.poolInv hI)⟩

/-- **The stop of a process changes nothing that is committed, and leaves the sessions of the other
    processes as they are.** -/
theorem rolled_stopProcess (replica : Nat → Nat) (w : World) (p : Nat) :
    Rolled (fun j => replica j ≠ p) w (w.stopProcess replica p) := by
  refine rolled_foldl (fun i hi hne => hne ?_) w
  simpa using (List.mem_filter.mp hi).2

/-- A new state of one process is no business of the sessions. -/
theorem setInner_rely (w : World) (p : Nat) (s : LedgerState) (j : Nat) :
    Rely j w (w.setInner p s) :=
  ⟨rfl, List.prefix_rfl, rfl, rfl⟩

theorem setInner_poolInv (h : PoolInv digest salt calls w) (s : LedgerState) :
    PoolInv digest salt calls (w.setInner p s) := by
  have hexec : Exec (fun _ => p) 0 (.cache fun _ => s) w () (w.setInner p s) := rfl
  exact exec_poolInv hexec (by simp) h

end Processes

/-! ## 3. What holds in every run -/

section Sound

variable (digest : ByteArray → String) (salt : String) (calls : Nat → PoolCall)
  (replica : Nat → Nat) (base : Tables)

/-- No committed transaction has the key of a row there was. -/
def World.AddsNew (w : World) : Prop :=
  ∀ k ∈ w.log, ∀ id, k.tables.HasPosting id → ¬ w.base.HasPosting id

/-- **The invariant of the cluster**: that of concurrent calls; every call in progress keeps it, and
    every call that has returned `Ok` answers for one committed transaction of its posting. -/
structure Cluster.Sound (c : Cluster) : Prop where
  poolInv : PoolInv digest salt calls c.world
  base : c.world.base = base
  addsNew : c.world.AddsNew
  running : ∀ i p, c.phase i = .running p → (c.phase i).inProgress = true →
    Holds (Rely i) (PoolInv digest salt calls) (Exec replica i)
      (fun r w => ∀ a, r = .ok a → Answered i (calls i).req.postingId a w) p c.world
  answered : ∀ i a, c.phase i = .running (.ret (.ok a)) →
    Answered i (calls i).req.postingId a c.world

variable {digest salt calls replica base} {inner : Nat → LedgerState} {c : Cluster}

theorem exec_addsNew {i : Nat} {o : Stmt} {r : Reply o} {w w' : World}
    (he : Exec replica i o w r w') (hkeys : KeyInv w) (h : w.AddsNew) : w'.AddsNew := by
  cases exec_effect he with
  | keep => exact h
  | read r => exact h
  | write t keys => exact h
  | drop => exact h
  | apply t commits opened =>
    intro k hk id hid hin
    rcases List.mem_append.mp hk with hk | hk
    · exact h k hk id hid hin
    · rw [List.mem_singleton.mp hk] at hid
      exact hkeys.pending i t opened id hid ((tablesAfter_hasPosting _ _ _).mpr (Or.inl hin))
  | replica inner emitted => exact h

/-- An answer stays true while transactions are committed. -/
theorem answered_grows {i : Nat} {id : String} {a : PostingResponse × Bool} {w w' : World}
    (h : Answered i id a w) (hb : w'.base = w.base) (hl : w.log <+: w'.log) :
    Answered i id a w' := by
  intro hlacks
  rw [hb] at hlacks
  obtain ⟨k, hk, hanswer⟩ := h hlacks
  exact ⟨k, hl.subset hk, hanswer⟩

theorem sound_start (base : Tables) (inner : Nat → LedgerState) :
    (Cluster.start base inner).Sound digest salt calls replica base :=
  ⟨poolInv_start base inner, rfl, fun _ hk => absurd hk List.not_mem_nil,
    fun _ _ h => (by cases h), fun _ _ h => (by cases h)⟩

/-- The invariant after a step that leaves the other calls as they are: what is left to show
    concerns the calls whose phase is new. -/
theorem Cluster.Sound.step {c' : Cluster} (h : c.Sound digest salt calls replica base)
    (hI : PoolInv digest salt calls c'.world) (hb : c'.world.base = c.world.base)
    (hl : c.world.log <+: c'.world.log) (hnew : c'.world.AddsNew)
    (hkeep : ∀ j, c'.phase j = c.phase j ∧ Rely j c.world c'.world ∨
      c'.phase j = c.phase j ∧ (c.phase j).inProgress = false ∨
      (∀ p, c'.phase j = .running p → Holds (Rely j) (PoolInv digest salt calls) (Exec replica j)
        (fun r w => ∀ a, r = .ok a → Answered j (calls j).req.postingId a w) p c'.world)) :
    c'.Sound digest salt calls replica base := by
  refine ⟨hI, hb.trans h.base, hnew, fun j p hj hin => ?_, fun j a hj => ?_⟩
  · rcases hkeep j with ⟨hsame, hrely⟩ | ⟨hsame, hended⟩ | hholds
    · rw [hsame] at hj hin
      exact (h.running j p hj hin).env (fun _ _ _ h h' => h.trans h') hrely
    · rw [hsame, hended] at hin
      cases hin
    · exact hholds p hj
  · rcases hkeep j with ⟨hsame, _⟩ | ⟨hsame, _⟩ | hholds
    · rw [hsame] at hj
      exact answered_grows (h.answered j a hj) hb hl
    · rw [hsame] at hj
      exact answered_grows (h.answered j a hj) hb hl
    · exact (hholds _ hj).result (Rely.refl j) rfl a rfl

theorem sound_begin (h : c.Sound digest salt calls replica base) (i : Nat) :
    (c.begin digest salt calls i).Sound digest salt calls replica base := by
  refine h.step h.poolInv rfl List.prefix_rfl h.addsNew fun j => ?_
  by_cases hji : j = i
  · subst hji
    refine Or.inr (Or.inr fun p hp => ?_)
    rw [show (c.begin digest salt calls j).phase j = _ from Function.update_self ..] at hp
    cases hp
    exact postPool_spec _ trivial
  · exact Or.inl ⟨Function.update_of_ne hji .., Rely.refl j _⟩

theorem sound_issue (h : c.Sound digest salt calls replica base) {i : Nat} {o : Stmt}
    {k : Reply o → PostScript} {r : Reply o} {w : World}
    (next : c.phase i = .running (.call o k)) (he : Exec replica i o c.world r w) :
    (c.issued replica i o r w (k r)).Sound digest salt calls replica base := by
  obtain ⟨hI, hrest⟩ := h.running i _ next (by rw [next]; rfl) c.world (Rely.refl i _) h.poolInv r
    w he
  have hframe : ∀ j, i ≠ j → Rely j c.world w := fun j hij => exec_frame hij o r he
  have hother := hframe (i + 1) (Nat.succ_ne_self i).symm
  refine h.step hI hother.base hother.log (exec_addsNew he h.poolInv.keys h.addsNew) fun j => ?_
  by_cases hji : j = i
  · subst hji
    refine Or.inr (Or.inr fun p hp => ?_)
    rw [show (c.issued replica j o r w (k r)).phase j = _ from Function.update_self ..] at hp
    cases hp
    exact hrest
  · exact Or.inl ⟨Function.update_of_ne hji .., hframe j (Ne.symm hji)⟩

theorem stop_cases (phase : Phase) :
    phase.stop = phase ∧ phase.inProgress = false ∨
      phase.stop = .stopped ∧ phase.inProgress = true := by
  cases phase with
  | waiting => exact Or.inl ⟨rfl, rfl⟩
  | stopped => exact Or.inl ⟨rfl, rfl⟩
  | running p =>
    cases p with
    | ret a => exact Or.inl ⟨rfl, rfl⟩
    | call o k => exact Or.inr ⟨rfl, rfl⟩

theorem sound_stop (h : c.Sound digest salt calls replica base) (p : Nat) :
    (c.stop replica p).Sound digest salt calls replica base := by
  obtain ⟨hb, hl, _, _, hrely, hpoolInv⟩ := rolled_stopProcess replica c.world p
  refine h.step (hpoolInv h.poolInv) hb ?_ (fun k hk id hid => ?_) fun j => ?_
  · rw [show (c.stop replica p).world.log = c.world.log from hl]
  · rw [show (c.stop replica p).world.log = c.world.log from hl] at hk
    rw [show (c.stop replica p).world.base = c.world.base from hb]
    exact h.addsNew k hk id hid
  · have hphase : (c.stop replica p).phase j =
        if replica j = p then (c.phase j).stop else c.phase j := rfl
    rw [hphase]
    by_cases hj : replica j = p
    · rw [if_pos hj]
      rcases stop_cases (c.phase j) with ⟨hsame, hended⟩ | ⟨hstopped, _⟩
      · exact Or.inr (Or.inl ⟨hsame, hended⟩)
      · rw [hstopped]
        exact Or.inr (Or.inr fun q hq => by cases hq)
    · rw [if_neg hj]
      exact Or.inl ⟨rfl, hrely j hj⟩

theorem sound_restart (h : c.Sound digest salt calls replica base) (p : Nat) (s : LedgerState) :
    (c.restart p s).Sound digest salt calls replica base :=
  h.step (setInner_poolInv h.poolInv s) rfl List.prefix_rfl h.addsNew fun j =>
    Or.inl ⟨rfl, setInner_rely c.world p s j⟩

/-- **The invariant holds in every state a run of the cluster reaches.** -/
theorem cluster_sound (h : ClusterReach digest salt calls replica base inner c) :
    c.Sound digest salt calls replica base := by
  induction h with
  | refl => exact sound_start base inner
  | tail _ hstep ih =>
    cases hstep with
    | begin i waits up => exact sound_begin ih i
    | issue i o k r w next exec => exact sound_issue ih next exec
    | stop p up => exact sound_stop ih p
    | restart p reads s down hydrated => exact sound_restart ih p s

end Sound

/-- **What holds at the start and is kept by every statement holds in every run of the cluster.** -/
theorem cluster_invariant {digest : ByteArray → String} {salt : String} {calls : Nat → PoolCall}
    {replica : Nat → Nat} {base : Tables} {inner : Nat → LedgerState} {c : Cluster}
    {I : World → Prop} (h0 : I (World.start base inner))
    (hstep : ∀ f i o w r w', Exec f i o w r w' → I w → I w')
    (h : ClusterReach digest salt calls replica base inner c) : I c.world := by
  have hdiscard : ∀ (l : List Nat) w, I w → I (l.foldl World.discard w) := by
    intro l
    induction l with
    | nil => exact fun w hw => hw
    | cons i l ih => exact fun w hw => ih _ (hstep id i .rollback w () _ rfl hw)
  induction h with
  | refl => exact h0
  | tail _ hs ih =>
    cases hs with
    | begin i waits up => exact ih
    | issue i o k r w next exec => exact hstep replica i o _ r w exec ih
    | stop p up => exact hdiscard _ _ ih
    | restart p reads s down hydrated =>
      exact hstep (fun _ => p) 0 (.cache fun _ => s) _ () _ rfl ih

/-! ## 4. Calls that are served one after the other -/

/-- Serve call `i` to its end; `none` where a statement has no step. -/
def answerCall (replica : Nat → Nat) (exec : (o : Stmt) → World → Option (Reply o × World))
    (i : Nat) : PostScript → Cluster → Option Cluster
  | .ret _, c => some c
  | .call o k, c =>
    match exec o c.world with
    | none => none
    | some (r, w) => answerCall replica exec i (k r) (c.issued replica i o r w (k r))

/-- What the call was answered. -/
def Phase.answer : Phase → Option (Except PostError (PostingResponse × Bool))
  | .running (.ret a) => some a
  | _ => none

/-- Call `i` is taken up and served. -/
def Cluster.servePost (digest : ByteArray → String) (salt : String) (calls : Nat → PoolCall)
    (replica : Nat → Nat) (exec : (o : Stmt) → World → Option (Reply o × World)) (c : Cluster)
    (i : Nat) : Option Cluster :=
  answerCall replica exec i (postPool digest salt (calls i).sup (calls i).sink (calls i).req)
    (c.begin digest salt calls i)

section Serve

variable {digest : ByteArray → String} {salt : String} {calls : Nat → PoolCall}
  {replica : Nat → Nat} {exec : (o : Stmt) → World → Option (Reply o × World)} {i : Nat}

/-- **A call that is served is a run of the cluster** that answers it and leaves the other calls as
    they are. -/
theorem answerCall_spec (hexec : ∀ o w r w', exec o w = some (r, w') → Exec replica i o w r w')
    {p : PostScript} {c c' : Cluster} (hp : c.phase i = .running p)
    (h : answerCall replica exec i p c = some c') :
    Relation.ReflTransGen (ClusterStep digest salt calls replica) c c' ∧
      ∃ a, c'.phase = Function.update c.phase i (.running (.ret a)) := by
  induction p generalizing c with
  | ret a =>
    cases h
    exact ⟨.refl, a, by rw [← hp, Function.update_eq_self]⟩
  | call o k ih =>
    simp only [answerCall] at h
    split at h
    · cases h
    · rename_i r w hw
      have hstep : ClusterStep digest salt calls replica c (c.issued replica i o r w (k r)) :=
        .issue i o k r w hp (hexec o c.world r w hw)
      obtain ⟨hrest, a, ha⟩ := ih r (Function.update_self i _ _) h
      refine ⟨.head hstep hrest, a, ?_⟩
      rw [ha]
      exact Function.update_idem ..

/-- **A call that waits and is served is answered**, and the other calls are where they were. -/
theorem servePost_spec (hexec : ∀ o w r w', exec o w = some (r, w') → Exec replica i o w r w')
    {c : Cluster} (waits : c.phase i = .waiting) (up : c.up (replica i) = true)
    (h : (c.servePost digest salt calls replica exec i).isSome) :
    let c' := (c.servePost digest salt calls replica exec i).get h
    Relation.ReflTransGen (ClusterStep digest salt calls replica) c c' ∧
      ∃ a, c'.phase = Function.update c.phase i (.running (.ret a)) := by
  have hp : (c.begin digest salt calls i).phase i = _ := Function.update_self ..
  obtain ⟨hrun, a, ha⟩ := answerCall_spec hexec hp (Option.some_get h).symm
  refine ⟨.head (.begin i waits up) hrun, a, ?_⟩
  rw [ha]
  exact Function.update_idem ..

theorem Cluster.Idle.answered {c c' : Cluster} (h : c.Idle)
    (hphase : ∃ a, c'.phase = Function.update c.phase i (.running (.ret a))) : c'.Idle := by
  obtain ⟨a, ha⟩ := hphase
  intro j
  rw [ha]
  by_cases hj : j = i
  · rw [hj, Function.update_self]
    rfl
  · rw [Function.update_of_ne hj]
    exact h j

end Serve

/-! ## 5. Calls that take turns -/

section Turns

variable (digest : ByteArray → String) (salt : String) (calls : Nat → PoolCall)
  (replica : Nat → Nat) (exec : Nat → (o : Stmt) → World → Option (Reply o × World))

/-- Call `i` is taken up, or issues its next statement, if it can. -/
def Cluster.turn (c : Cluster) (i : Nat) : Cluster :=
  match c.phase i with
  | .waiting => if c.up (replica i) then c.begin digest salt calls i else c
  | .stopped => c
  | .running (.ret _) => c
  | .running (.call o k) =>
    match exec i o c.world with
    | none => c
    | some (r, w) => c.issued replica i o r w (k r)

/-- The calls take turns in the given order. -/
def Cluster.turns (order : List Nat) (c : Cluster) : Cluster :=
  order.foldl (Cluster.turn digest salt calls replica exec) c

variable {digest salt calls replica exec}

/-- **The state an order of turns ends in is reachable.** -/
theorem reach_turns (hexec : ∀ i o w r w', exec i o w = some (r, w') → Exec replica i o w r w')
    (order : List Nat) (c : Cluster) : Relation.ReflTransGen
      (ClusterStep digest salt calls replica) c (c.turns digest salt calls replica exec order) := by
  induction order generalizing c with
  | nil => exact .refl
  | cons i order ih =>
    refine .trans ?_ (ih (c.turn digest salt calls replica exec i))
    unfold Cluster.turn
    split
    · split
      · rename_i hwaits hup
        exact .single (.begin i hwaits hup)
      · exact .refl
    · exact .refl
    · exact .refl
    · rename_i o k hnext
      split
      · exact .refl
      · rename_i r w hw
        exact .single (.issue i o k r w hnext (hexec i o _ r w hw))

end Turns

end LedgerAccounting
