/-
  File:      LedgerAccounting/Lib/Delimited.lean
  Subject:   Reading back the fields of a text joined with a delimiter.

  A field that contains no delimiter can be cut off a joined text from the front
  (`cut_front`) or from the back (`cut_back`); one field in the middle may then contain anything.
  The string forms (`string_cut_front`, `string_cut_back`) are the same facts about `String`.
  `joined_eq_iff` says which pairs of fields are joined to one text when nothing is known of them.
-/
import Mathlib

namespace Delimited

/-! ## 1. Lists -/

variable {α : Type*} {c : α}

theorem cut_front {a a' b b' : List α} (ha : c ∉ a) (ha' : c ∉ a')
    (h : a ++ c :: b = a' ++ c :: b') : a = a' ∧ b = b' := by
  induction a generalizing a' with
  | nil =>
    cases a' with
    | nil => exact ⟨rfl, by simpa using h⟩
    | cons x a' =>
      simp only [List.nil_append, List.cons_append, List.cons.injEq] at h
      exact absurd (h.1 ▸ List.mem_cons_self) ha'
  | cons x a ih =>
    cases a' with
    | nil =>
      simp only [List.nil_append, List.cons_append, List.cons.injEq] at h
      exact absurd (h.1 ▸ List.mem_cons_self) ha
    | cons y a' =>
      simp only [List.cons_append, List.cons.injEq] at h
      obtain ⟨hab, hb⟩ := ih (fun hc => ha (List.mem_cons_of_mem _ hc))
        (fun hc => ha' (List.mem_cons_of_mem _ hc)) h.2
      exact ⟨by rw [h.1, hab], hb⟩

theorem cut_back {a a' b b' : List α} (hb : c ∉ b) (hb' : c ∉ b')
    (h : a ++ c :: b = a' ++ c :: b') : a = a' ∧ b = b' := by
  have hrev : b.reverse ++ c :: a.reverse = b'.reverse ++ c :: a'.reverse := by
    simpa using congrArg List.reverse h
  obtain ⟨h1, h2⟩ := cut_front (by simpa using hb) (by simpa using hb') hrev
  exact ⟨List.reverse_injective h2, List.reverse_injective h1⟩

/-- **Two pairs are joined to one list exactly when they are equal or one takes its delimiter out
    of a field of the other.** -/
theorem joined_eq_iff {a a' b b' : List α} : a ++ c :: b = a' ++ c :: b' ↔
    (a = a' ∧ b = b') ∨ (∃ u, a = a' ++ c :: u ∧ b' = u ++ c :: b) ∨
      ∃ u, a' = a ++ c :: u ∧ b = u ++ c :: b' := by
  constructor
  · intro h
    rcases List.append_eq_append_iff.mp h with ⟨u, ha, hb⟩ | ⟨u, ha, hb⟩
    · cases u with
      | nil => exact Or.inl ⟨by simpa using ha.symm, by simpa using hb⟩
      | cons x u =>
        obtain ⟨rfl, htail⟩ := List.cons.inj hb
        exact Or.inr (Or.inr ⟨u, ha, htail⟩)
    · cases u with
      | nil => exact Or.inl ⟨by simpa using ha, by simpa using hb.symm⟩
      | cons x u =>
        obtain ⟨rfl, htail⟩ := List.cons.inj hb
        exact Or.inr (Or.inl ⟨u, ha, htail⟩)
  · rintro (⟨rfl, rfl⟩ | ⟨u, rfl, rfl⟩ | ⟨u, rfl, rfl⟩)
    · rfl
    · simp
    · simp

/-! ## 2. Strings -/

/-- The text contains no `c`. -/
def Free (c : Char) (s : String) : Prop := c ∉ s.toList

instance (c : Char) (s : String) : Decidable (Free c s) :=
  inferInstanceAs (Decidable (c ∉ s.toList))

variable {c : Char}

theorem string_cut_front {a a' b b' : String} (ha : Free c a) (ha' : Free c a')
    (h : a ++ String.singleton c ++ b = a' ++ String.singleton c ++ b') : a = a' ∧ b = b' := by
  have hl : a.toList ++ c :: b.toList = a'.toList ++ c :: b'.toList := by
    simpa using congrArg String.toList h
  obtain ⟨h1, h2⟩ := cut_front ha ha' hl
  exact ⟨String.toList_inj.mp h1, String.toList_inj.mp h2⟩

theorem string_cut_back {a a' b b' : String} (hb : Free c b) (hb' : Free c b')
    (h : a ++ String.singleton c ++ b = a' ++ String.singleton c ++ b') : a = a' ∧ b = b' := by
  have hl : a.toList ++ c :: b.toList = a'.toList ++ c :: b'.toList := by
    simpa using congrArg String.toList h
  obtain ⟨h1, h2⟩ := cut_back hb hb' hl
  exact ⟨String.toList_inj.mp h1, String.toList_inj.mp h2⟩

/-- **Two pairs of texts are joined to one text exactly when they are equal or one takes its
    delimiter out of a field of the other.** -/
theorem string_joined_eq_iff {a a' b b' : String} :
    a ++ String.singleton c ++ b = a' ++ String.singleton c ++ b' ↔
      (a = a' ∧ b = b') ∨
      (∃ u, a = a' ++ String.singleton c ++ u ∧ b' = u ++ String.singleton c ++ b) ∨
      ∃ u, a' = a ++ String.singleton c ++ u ∧ b = u ++ String.singleton c ++ b' := by
  have hjoin : ∀ x y : String,
      (x ++ String.singleton c ++ y).toList = x.toList ++ c :: y.toList := by
    intro x y
    simp
  have hback : ∀ {x x' y y' : String},
      (∃ u, x.toList = x'.toList ++ c :: u ∧ y'.toList = u ++ c :: y.toList) ↔
        ∃ u, x = x' ++ String.singleton c ++ u ∧ y' = u ++ String.singleton c ++ y := by
    intro x x' y y'
    constructor
    · rintro ⟨u, hx, hy⟩
      refine ⟨String.ofList u, String.toList_inj.mp ?_, String.toList_inj.mp ?_⟩
      · rw [hjoin, hx, String.toList_ofList]
      · rw [hjoin, hy, String.toList_ofList]
    · rintro ⟨u, rfl, rfl⟩
      exact ⟨u.toList, hjoin _ _, hjoin _ _⟩
  rw [← String.toList_inj, hjoin, hjoin, joined_eq_iff, hback, hback, String.toList_inj,
    String.toList_inj]

/-- Texts of one length at the front of one text are equal. -/
theorem string_append_inj {a a' b b' : String} (hlen : a.length = a'.length)
    (h : a ++ b = a' ++ b') : a = a' ∧ b = b' := by
  have hl : a.toList ++ b.toList = a'.toList ++ b'.toList := by
    simpa using congrArg String.toList h
  obtain ⟨h1, h2⟩ := List.append_inj hl (by rw [String.length_toList, String.length_toList, hlen])
  exact ⟨String.toList_inj.mp h1, String.toList_inj.mp h2⟩

/-! ## 3. Decimal numerals -/

/-- A decimal numeral consists of digits. -/
theorem repr_digits (n : Nat) : ∀ c ∈ n.repr.toList, c.isDigit = true := by
  intro c hc
  have hd : c ∈ Nat.toDigits 10 n := by simpa [Nat.repr] using hc
  exact Nat.isDigit_of_mem_toDigits (by decide) (by decide) hd

theorem repr_free {c : Char} (hc : c.isDigit = false) (n : Nat) : Free c n.repr := by
  intro hmem
  rw [repr_digits n c hmem] at hc
  cases hc

end Delimited
