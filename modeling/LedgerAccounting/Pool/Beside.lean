/-
  File:      LedgerAccounting/Pool/Beside.lean
  Subject:   A call of `user_custodial_sum` or `write_snapshots` beside concurrent `post` calls.

  Each query of the call sees what is committed when it runs. Between two queries the posts may
  make any number of steps, and other calls may change the table of snapshots.

  * `Onward`: what the steps around the call leave of it.
  * `query_beside`: the rule for one query of the call.
  * `beside_schedule`: the configuration an executable schedule ends in is reached.
-/
import LedgerAccounting.Lib.Amid
import LedgerAccounting.Pool.Rows
import LedgerAccounting.Pool.Summaries

namespace LedgerAccounting

open Script

/-! ## 1. Posts and the call beside them -/

/-- The calls of `post`. -/
abbrev Posts := Config World Nat Stmt Reply (Except PostError (PostingResponse × Bool))

structure Beside where
  posts : Posts
  own : Summaries

/-- The number of transactions committed so far. -/
def Beside.committed (b : Beside) : Nat := b.posts.state.log.length

/-- What goes on around the call. -/
inductive Goes (replica : Nat → Nat) (b : Beside) : Beside → Prop where
  | post (c : Posts) (step : Step (Exec replica) b.posts c) : Goes replica b ⟨c, b.own⟩
  | table (table : List SnapshotRow) : Goes replica b ⟨b.posts, { b.own with table := table }⟩

/-- A query of the call, on what is committed; none fails. -/
def BesideExec (o : SummaryStmt) (b : Beside) (r : SummaryReply o) (b' : Beside) : Prop :=
  b'.posts = b.posts ∧
    SummaryExec (fun _ => False) b.posts.state.db b.committed o b.own r b'.own

/-- The call, from its start beside the given posts to the given point. -/
abbrev CallReach {α : Type} (replica : Nat → Nat) (call : Script SummaryStmt SummaryReply α)
    (c : Posts) (table : List SnapshotRow) (cache : List BalanceSnapshot)
    (p : Beside × Script SummaryStmt SummaryReply α) : Prop :=
  AmidReach (Goes replica) BesideExec (⟨c, .start table cache⟩, call) p

/-! ## 2. What the steps around the call leave of it -/

structure Onward (b b' : Beside) : Prop where
  base : b'.posts.state.base = b.posts.state.base
  log : b.posts.state.log <+: b'.posts.state.log
  sums : b'.own.sums = b.own.sums
  lasts : b'.own.lasts = b.own.lasts
  written : b'.own.written = b.own.written

theorem Onward.refl (b : Beside) : Onward b b := ⟨rfl, List.prefix_rfl, rfl, rfl, rfl⟩

theorem Onward.trans (b b' b'' : Beside) (h : Onward b b') (h' : Onward b' b'') : Onward b b'' :=
  ⟨h'.base.trans h.base, h.log.trans h'.log, h'.sums.trans h.sums, h'.lasts.trans h.lasts,
    h'.written.trans h.written⟩

theorem Onward.committed {b b' : Beside} (h : Onward b b') : b.committed ≤ b'.committed :=
  h.log.length_le

/-- The tables of an earlier moment stay what they were. -/
theorem Onward.dbAt {b b' : Beside} (h : Onward b b') {n : Nat} (hn : n ≤ b.committed) :
    b'.posts.state.dbAt n = b.posts.state.dbAt n :=
  dbAt_grows h.base h.log hn

theorem goes_onward {replica : Nat → Nat} {b b' : Beside} (h : Goes replica b b') :
    Onward b b' := by
  cases h with
  | post c step =>
    obtain ⟨posts, own⟩ := b
    cases step with
    | issue i o k r s next he =>
      have hrely := exec_frame (Nat.succ_ne_self i).symm o r he
      exact ⟨hrely.base, hrely.log, rfl, rfl, rfl⟩
  | table table => exact ⟨rfl, List.prefix_rfl, rfl, rfl, rfl⟩

/-- One query of the call: what the steps around it keep, and what is known after it. -/
theorem query_beside {Inv P : Beside → Prop} {o : SummaryStmt} {Q : SummaryReply o → Beside → Prop}
    (hP : Stable Onward P)
    (hstep : ∀ b r own, P b → Inv b →
      SummaryExec (fun _ => False) b.posts.state.db b.committed o b.own r own →
      Inv ⟨b.posts, own⟩ ∧ Q r ⟨b.posts, own⟩)
    (hQ : ∀ r, Stable Onward (Q r)) :
    Triple Onward Inv BesideExec P (issueSummary o) Q := by
  refine Triple.perform hP (fun b r b' hb hI he => ?_) hQ
  obtain ⟨hposts, hexec⟩ := he
  obtain ⟨posts, own⟩ := b'
  obtain rfl : posts = b.posts := hposts
  exact hstep b r own hb hI hexec

section Interleaving

variable {digest : ByteArray → String} {salt : String} {calls : Nat → PoolCall}
  {replica : Nat → Nat} {base : Tables} {inner : Nat → LedgerState}

theorem goes_interleaved {b b' : Beside} (h : Goes replica b b')
    (hI : Interleaved digest salt calls replica base inner b.posts) :
    Interleaved digest salt calls replica base inner b'.posts := by
  cases h with
  | post c step => exact hI.tail step
  | table table => exact hI

end Interleaving

/-! ## 3. Executable schedules -/

/-- The posts take turns in the given order. -/
def Beside.advance (order : List Nat) (b : Beside) : Beside :=
  ⟨runSchedule (exec id) order b.posts, b.own⟩

def besideExec (o : SummaryStmt) (b : Beside) : Option (SummaryReply o × Beside) :=
  (summaryExec (fun _ => false) b.posts.state.db b.committed o b.own).map fun p =>
    (p.1, ⟨b.posts, p.2⟩)

/-- The call beside the given posts, in the given order: `none` is its next query. -/
def runBeside {α : Type} (call : Script SummaryStmt SummaryReply α) (c : Posts)
    (schedule : List (Option (List Nat))) : Beside × Script SummaryStmt SummaryReply α :=
  runAmid Beside.advance besideExec schedule (⟨c, .start [] []⟩, call)

theorem advance_goes (order : List Nat) (b : Beside) :
    Relation.ReflTransGen (Goes id) b (b.advance order) := by
  obtain ⟨posts, own⟩ := b
  have hreach : Reach (Exec id) posts (runSchedule (exec id) order posts) :=
    reach_runSchedule (exec_sound id) _ _
  have hgoes : ∀ c c' : Posts, Step (Exec id) c c' → Goes id ⟨c, own⟩ ⟨c', own⟩ :=
    fun c c' hstep => Goes.post c' hstep
  exact Relation.ReflTransGen.lift (fun c => (⟨c, own⟩ : Beside)) hgoes _ _ hreach

theorem besideExec_sound (o : SummaryStmt) (b : Beside) (r : SummaryReply o) (b' : Beside)
    (h : besideExec o b = some (r, b')) : BesideExec o b r b' := by
  obtain ⟨⟨r', own⟩, hexec, hpair⟩ := Option.map_eq_some_iff.mp h
  cases hpair
  have hsound := summary_exec_sound o b.own _ _ hexec
  simp only [Bool.false_eq_true] at hsound
  exact ⟨rfl, hsound⟩

/-- **The configuration a schedule ends in is reached.** -/
theorem beside_schedule {α : Type} (call : Script SummaryStmt SummaryReply α) (c : Posts)
    (schedule : List (Option (List Nat))) :
    CallReach id call c [] [] (runBeside call c schedule) :=
  amid_schedule advance_goes besideExec_sound schedule _

/-- ... also where the call has returned. -/
theorem beside_returned {α : Type} {call : Script SummaryStmt SummaryReply α} {c : Posts}
    {schedule : List (Option (List Nat))} {a : α}
    (h : (runBeside call c schedule).2.result = some a) :
    CallReach id call c [] [] ((runBeside call c schedule).1, .ret a) := by
  have hreach := beside_schedule call c schedule
  rwa [← ret_of_result h]

end LedgerAccounting
