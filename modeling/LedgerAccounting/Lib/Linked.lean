/-
  File:      LedgerAccounting/Lib/Linked.lean
  Subject:   Lists of elements that point back at one another, over any element type `α`, any
             type `β` of marks and any payload type `γ`.

  An element `e` is known by the mark `this e` and points at the mark `prev e`; a list is linked
  from a mark `g` when the first element points at `g` and every other one at the element before
  it. Nothing is said of how a mark is computed: what a chain of hashes adds is the hypothesis
  `Binds`, that equal marks come from equal predecessors and equal payloads.

  * `linked_commits`: under `Binds`, the last mark commits to the whole list.
  * `linked_sublist_initial`: a linked part of a linked list is a prefix of it.
  * `linked_replace`: when an element can be exchanged for another.
  * `linked_without_iff`: when elements can be taken away.
-/
import Mathlib.Data.List.Induction
import Mathlib.Data.List.Nodup
import Mathlib.Data.List.Forall2
import Mathlib.Data.Finset.Basic
import Mathlib.Tactic.Tauto

namespace Linked

variable {α β γ : Type*} (prev this : α → β)

/-! ## 1. Linked lists and their head -/

/-- `l` is linked from `g`: each element points at the mark of the one before it. -/
def LinkedFrom : β → List α → Prop
  | _, [] => True
  | g, e :: l => prev e = g ∧ LinkedFrom (this e) l

/-- The mark a list ends with, `g` for the empty list. -/
def headFrom : β → List α → β
  | g, [] => g
  | _, e :: l => headFrom (this e) l

@[simp] theorem headFrom_nil (g : β) : headFrom this g [] = g := rfl

@[simp] theorem headFrom_cons (g : β) (e : α) (l : List α) :
    headFrom this g (e :: l) = headFrom this (this e) l := rfl

theorem headFrom_append (g : β) (l m : List α) :
    headFrom this g (l ++ m) = headFrom this (headFrom this g l) m := by
  induction l generalizing g with
  | nil => rfl
  | cons e l ih => exact ih (this e)

@[simp] theorem headFrom_concat (g : β) (l : List α) (e : α) :
    headFrom this g (l ++ [e]) = this e := by
  rw [headFrom_append]
  rfl

theorem headFrom_eq_getLast (g : β) (l : List α) :
    headFrom this g l = (l.getLast?.map this).getD g := by
  rcases List.eq_nil_or_concat l with rfl | ⟨m, e, rfl⟩
  · rfl
  · simp

/-- The head is a mark of the list, or the start. -/
theorem headFrom_mem (g : β) (l : List α) :
    headFrom this g l = g ∨ headFrom this g l ∈ l.map this := by
  rcases List.eq_nil_or_concat l with rfl | ⟨m, e, rfl⟩
  · exact Or.inl rfl
  · exact Or.inr (by simp)

variable {prev this}

theorem linkedFrom_append {g : β} {l m : List α} :
    LinkedFrom prev this g (l ++ m) ↔
      LinkedFrom prev this g l ∧ LinkedFrom prev this (headFrom this g l) m := by
  induction l generalizing g with
  | nil => simp [LinkedFrom]
  | cons e l ih =>
    simp only [List.cons_append, LinkedFrom, headFrom_cons, ih]
    tauto

theorem linkedFrom_concat {g : β} {l : List α} {e : α} :
    LinkedFrom prev this g (l ++ [e]) ↔ LinkedFrom prev this g l ∧ prev e = headFrom this g l := by
  rw [linkedFrom_append]
  simp [LinkedFrom]

theorem linkedFrom_initial {g : β} {l m : List α} (h : LinkedFrom prev this g m) (hp : l <+: m) :
    LinkedFrom prev this g l := by
  obtain ⟨t, rfl⟩ := hp
  exact (linkedFrom_append.mp h).1

/-- The elements point at the start and at all marks but the last. -/
theorem linked_prevs {g : β} {l : List α} (h : LinkedFrom prev this g l) :
    l.map prev = (g :: l.map this).dropLast := by
  induction l generalizing g with
  | nil => rfl
  | cons e l ih =>
    obtain ⟨he, hl⟩ := h
    rw [List.map_cons, List.map_cons, he, ih hl]
    rfl

/-! ## 2. Exchanging an element -/

/-- **An element of a linked list can be exchanged for `e` exactly when `e` points where the
    old one pointed and, unless it is the last, is known by the same mark.** -/
theorem linked_replace {g : β} {l m : List α} {x e : α}
    (h : LinkedFrom prev this g (l ++ x :: m)) :
    LinkedFrom prev this g (l ++ e :: m) ↔ prev e = prev x ∧ (m = [] ∨ this e = this x) := by
  obtain ⟨hl, hx, hm⟩ := linkedFrom_append.mp h
  rw [linkedFrom_append]
  simp only [LinkedFrom, hl, true_and, hx]
  refine and_congr_right fun _ => ?_
  cases m with
  | nil => simp [LinkedFrom]
  | cons y m =>
    have hy : prev y = this x := hm.1
    simp only [LinkedFrom, hm.2, and_true, hy, List.cons_ne_nil, false_or]
    exact eq_comm

/-! ## 3. Marks that bind -/

/-- Equal marks on elements of `l` and `l'` come from equal predecessors and equal payloads. -/
def Binds (prev this : α → β) (pay : α → γ) (l l' : List α) : Prop :=
  ∀ e ∈ l, ∀ e' ∈ l', this e = this e' → prev e = prev e' ∧ pay e = pay e'

theorem Binds.mono {pay : α → γ} {l l' m m' : List α} (h : Binds prev this pay l l')
    (hm : ∀ e ∈ m, e ∈ l) (hm' : ∀ e ∈ m', e ∈ l') : Binds prev this pay m m' :=
  fun e he e' he' => h e (hm e he) e' (hm' e' he')

/-- No element of `l` is known by the start mark `g`. -/
def Avoids (this : α → β) (g : β) (l : List α) : Prop := ∀ e ∈ l, this e ≠ g

theorem Avoids.mono {g : β} {l m : List α} (h : Avoids this g l) (hm : ∀ e ∈ m, e ∈ l) :
    Avoids this g m :=
  fun e he => h e (hm e he)

theorem Avoids.head_ne {g : β} {l : List α} (h : Avoids this g l) (hl : l ≠ []) :
    headFrom this g l ≠ g := by
  rcases List.eq_nil_or_concat l with rfl | ⟨m, e, rfl⟩
  · exact absurd rfl hl
  · rw [List.concat_eq_append, headFrom_concat]
    exact h e (by simp)

/-- Where no element is known by the start mark, at most one points at it. -/
theorem linked_starts_once [DecidableEq β] {g : β} {l : List α} (hl : LinkedFrom prev this g l)
    (ha : Avoids this g l) : (l.map prev).count g ≤ 1 := by
  have hrest : g ∉ l.map this := by
    intro hg
    obtain ⟨x, hx, hxg⟩ := List.mem_map.mp hg
    exact ha x hx hxg
  have hle := (List.dropLast_sublist (g :: l.map this)).count_le g
  rw [List.count_cons_self, List.count_eq_zero.mpr hrest] at hle
  rwa [linked_prevs hl]

/-- **The last mark commits to the list**: two linked lists with one head agree, position by
    position, on predecessor, mark and payload. The induction runs from the back: equal heads
    give equal predecessors, which are the heads of what is left. -/
theorem linked_commits {pay : α → γ} {g : β} {l l' : List α}
    (hl : LinkedFrom prev this g l) (hl' : LinkedFrom prev this g l')
    (hb : Binds prev this pay l l') (hg : Avoids this g l) (hg' : Avoids this g l')
    (hh : headFrom this g l = headFrom this g l') :
    List.Forall₂ (fun e e' => prev e = prev e' ∧ this e = this e' ∧ pay e = pay e') l l' := by
  induction l using List.reverseRecOn generalizing l' with
  | nil =>
    rcases List.eq_nil_or_concat l' with rfl | ⟨m', e', rfl⟩
    · exact .nil
    · exact absurd hh.symm (hg'.head_ne (by simp))
  | append_singleton m e ih =>
    rcases List.eq_nil_or_concat l' with rfl | ⟨m', e', rfl⟩
    · exact absurd hh (hg.head_ne (by simp))
    · rw [List.concat_eq_append] at hl' hb hg' hh ⊢
      rw [headFrom_concat, headFrom_concat] at hh
      obtain ⟨hm, he⟩ := linkedFrom_concat.mp hl
      obtain ⟨hm', he'⟩ := linkedFrom_concat.mp hl'
      obtain ⟨hprev, hpay⟩ := hb e (by simp) e' (by simp) hh
      have hheads : headFrom this g m = headFrom this g m' := by rw [← he, ← he', hprev]
      have hrest := ih hm hm' (hb.mono (by simp +contextual) (by simp +contextual))
        (hg.mono (by simp +contextual)) (hg'.mono (by simp +contextual)) hheads
      exact List.rel_append hrest (.cons ⟨hprev, hh, hpay⟩ .nil)

/-- The marks of a linked list are pairwise distinct: a mark met twice would be the head of two
    linked lists of different lengths. -/
theorem linked_nodup {pay : α → γ} {g : β} {l : List α} (hl : LinkedFrom prev this g l)
    (hb : Binds prev this pay l l) (hg : Avoids this g l) : (l.map this).Nodup := by
  induction l using List.reverseRecOn with
  | nil => exact List.nodup_nil
  | append_singleton m e ih =>
    have hm := (linkedFrom_concat.mp hl).1
    have hmm : ∀ x ∈ m, x ∈ m ++ [e] := by simp +contextual
    rw [List.map_append, List.map_singleton, List.nodup_append_comm, List.singleton_append,
      List.nodup_cons]
    refine ⟨fun hmem => ?_, ih hm (hb.mono hmm hmm) (hg.mono hmm)⟩
    obtain ⟨x, hx, hxe⟩ := List.mem_map.mp hmem
    obtain ⟨a, b, rfl⟩ := List.append_of_mem hx
    have ha : LinkedFrom prev this g (a ++ [x]) :=
      linkedFrom_initial hm ⟨b, by simp⟩
    have hax : ∀ y ∈ a ++ [x], y ∈ a ++ x :: b ++ [e] := by
      intro y hy
      rcases List.mem_append.mp hy with h | h
      · simp [h]
      · simp [List.mem_singleton.mp h]
    have hall := linked_commits ha hl (hb.mono hax fun _ h => h) (hg.mono hax) hg
      (by rw [headFrom_concat, headFrom_concat, hxe])
    have hlen := hall.length_eq
    simp at hlen

/-- No two elements of a linked list point at the same mark. -/
theorem linked_prevs_nodup {pay : α → γ} {g : β} {l : List α} (hl : LinkedFrom prev this g l)
    (hb : Binds prev this pay l l) (hg : Avoids this g l) : (l.map prev).Nodup := by
  rw [linked_prevs hl]
  have hstart : g ∉ l.map this := by
    intro hmem
    obtain ⟨x, hx, hxg⟩ := List.mem_map.mp hmem
    exact hg x hx hxg
  have hmarks : (g :: l.map this).Nodup := List.nodup_cons.mpr ⟨hstart, linked_nodup hl hb hg⟩
  exact hmarks.sublist (List.dropLast_sublist _)

/-- What holds of related elements of two lists holds position by position. -/
theorem forall₂_imp_mem {R S : α → γ → Prop} {l : List α} {r : List γ} (h : List.Forall₂ R l r)
    (hi : ∀ x ∈ l, ∀ y ∈ r, R x y → S x y) : List.Forall₂ S l r := by
  induction h with
  | nil => exact .nil
  | cons hxy _ ih =>
    refine .cons (hi _ List.mem_cons_self _ List.mem_cons_self hxy) (ih fun x hx y hy => ?_)
    exact hi x (List.mem_cons_of_mem _ hx) y (List.mem_cons_of_mem _ hy)

/-- **A linked part of a linked list is a prefix of it.** -/
theorem linked_sublist_initial {pay : α → γ} {g : β} {l l' : List α}
    (hl : LinkedFrom prev this g l) (hb : Binds prev this pay l l) (hg : Avoids this g l)
    (hs : l'.Sublist l) (hl' : LinkedFrom prev this g l') : l' <+: l := by
  rcases List.eq_nil_or_concat l' with rfl | ⟨m, e, rfl⟩
  · exact List.nil_prefix
  · rw [List.concat_eq_append] at hs hl' ⊢
    have he : e ∈ l := hs.subset (by simp)
    obtain ⟨a, b, rfl⟩ := List.append_of_mem he
    have ha : LinkedFrom prev this g (a ++ [e]) := linkedFrom_initial hl ⟨b, by simp⟩
    have hsub : ∀ y ∈ a ++ [e], y ∈ a ++ e :: b := by
      intro y hy
      rcases List.mem_append.mp hy with h | h
      · simp [h]
      · simp [List.mem_singleton.mp h]
    have hall := linked_commits hl' ha (hb.mono (fun _ h => hs.subset h) hsub)
      (hg.mono fun _ h => hs.subset h) (hg.mono hsub) (by rw [headFrom_concat, headFrom_concat])
    -- elements with one mark are one element, since the marks of `l` are distinct
    have hinj := List.inj_on_of_nodup_map (linked_nodup hl hb hg)
    have heq : m ++ [e] = a ++ [e] := List.forall₂_eq_eq_eq ▸
      forall₂_imp_mem hall fun x hx y hy hxy => hinj (hs.subset hx) (hsub y hy) hxy.2.1
    rw [heq]
    exact ⟨b, by simp⟩

/-! ## 4. Taking positions away -/

/-- The list without the elements at the positions `gone`, its first position being `n`. -/
def without (gone : Finset ℕ) : ℕ → List α → List α
  | _, [] => []
  | n, e :: l => if n ∈ gone then without gone (n + 1) l else e :: without gone (n + 1) l

theorem without_sublist (gone : Finset ℕ) (n : ℕ) (l : List α) : (without gone n l).Sublist l := by
  induction l generalizing n with
  | nil => exact List.Sublist.slnil
  | cons e l ih =>
    unfold without
    split
    · exact (ih (n + 1)).cons e
    · exact (ih (n + 1)).cons_cons e

theorem without_eq_nil_iff (gone : Finset ℕ) (n : ℕ) (l : List α) :
    without gone n l = [] ↔ ∀ j < l.length, n + j ∈ gone := by
  induction l generalizing n with
  | nil => simp [without]
  | cons e l ih =>
    unfold without
    rw [List.length_cons, Nat.forall_lt_succ_left]
    by_cases hn : n ∈ gone
    · rw [if_pos hn, ih]
      simp only [Nat.add_zero, hn, true_and, Nat.add_assoc, Nat.add_comm 1]
    · simp [hn]

/-- What stays of a list of distinct elements is a prefix of it exactly when nothing stays behind
    a position that is gone. -/
theorem without_prefix_iff {l : List α} (hl : l.Nodup) (gone : Finset ℕ) (n : ℕ) :
    without gone n l <+: l ↔
      ∀ i j, i < j → j < l.length → n + i ∈ gone → n + j ∈ gone := by
  induction l generalizing n with
  | nil => simp [without]
  | cons e l ih =>
    obtain ⟨he, hl⟩ := List.nodup_cons.mp hl
    unfold without
    by_cases hn : n ∈ gone
    · -- the rest does not hold `e`, so as a prefix it can only be empty
      have hnil : without gone (n + 1) l <+: e :: l ↔ without gone (n + 1) l = [] := by
        constructor
        · intro hp
          rcases List.prefix_cons_iff.mp hp with h | ⟨t, ht, _⟩
          · exact h
          · exact absurd ((without_sublist gone (n + 1) l).subset (by simp [ht])) he
        · intro h
          rw [h]
          exact List.nil_prefix
      rw [if_pos hn, hnil, without_eq_nil_iff]
      constructor
      · rintro h i (_ | j) hij hj _
        · omega
        · have := h j (by simpa using hj)
          rwa [show n + (j + 1) = n + 1 + j by omega]
      · intro h j hj
        rw [show n + 1 + j = n + (j + 1) by omega]
        exact h 0 (j + 1) (by omega) (by simpa using hj) hn
    · rw [if_neg hn, List.cons_prefix_cons]
      simp only [true_and, ih hl]
      constructor
      · rintro h (_ | i) (_ | j) hij hj hi
        · omega
        · exact absurd hi hn
        · omega
        · rw [show n + (j + 1) = n + 1 + j by omega]
          exact h i j (by omega) (by simpa using hj)
            (by rwa [show n + 1 + i = n + (i + 1) by omega])
      · intro h i j hij hj hi
        rw [show n + 1 + j = n + (j + 1) by omega]
        exact h (i + 1) (j + 1) (by omega) (by simpa using hj)
          (by rwa [show n + (i + 1) = n + 1 + i by omega])

/-- **A linked list stays linked when positions are taken away exactly when only a tail is.** -/
theorem linked_without_iff {pay : α → γ} {g : β} {l : List α} (hl : LinkedFrom prev this g l)
    (hb : Binds prev this pay l l) (hg : Avoids this g l) (gone : Finset ℕ) :
    LinkedFrom prev this g (without gone 0 l) ↔
      ∀ i j, i < j → j < l.length → i ∈ gone → j ∈ gone := by
  have hnodup : l.Nodup := (linked_nodup hl hb hg).of_map
  have hiff := without_prefix_iff hnodup gone 0
  simp only [Nat.zero_add] at hiff
  rw [← hiff]
  exact ⟨linked_sublist_initial hl hb hg (without_sublist gone 0 l), linkedFrom_initial hl⟩

end Linked
