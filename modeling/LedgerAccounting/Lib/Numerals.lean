/-
  File:      LedgerAccounting/Lib/Numerals.lean
  Subject:   The order of decimal numerals as texts, and how far it is the order of the numbers.

  Texts are compared from the front, numbers by their last digit: a numeral with fewer digits is
  compared with as many leading digits of the other one, whatever comes behind them.

  * `list_lt_iff_take`, `list_lt_iff_not_take`: over any linear order, how lists of different
    lengths compare.
  * `repr_le_iff`: the two orders agree on two numerals unless one is misread against the other.
-/
import Mathlib

namespace Numerals

/-! ## 1. Lists of different lengths -/

section Lists

variable {α : Type*} [LinearOrder α]

/-- **A list that is not shorter comes before `l` exactly when its front does.** -/
theorem list_lt_iff_take {l m : List α} (h : l.length ≤ m.length) :
    m < l ↔ m.take l.length < l := by
  induction l generalizing m with
  | nil => simp
  | cons x l ih =>
    cases m with
    | nil => simp at h
    | cons y m =>
      rw [List.length_cons, List.length_cons, Nat.succ_le_succ_iff] at h
      rw [List.length_cons, List.take_succ_cons, List.cons_lt_cons_iff, List.cons_lt_cons_iff, ih h]

/-- A list comes before a longer one exactly when the front of that one does not come before it. -/
theorem list_lt_iff_not_take {l m : List α} (h : m.length < l.length) :
    m < l ↔ ¬ l.take m.length < m := by
  induction m generalizing l with
  | nil =>
    cases l with
    | nil => simp at h
    | cons x l => simp
  | cons y m ih =>
    cases l with
    | nil => simp at h
    | cons x l =>
      rw [List.length_cons, List.length_cons, Nat.succ_lt_succ_iff] at h
      rw [List.length_cons, List.take_succ_cons, List.cons_lt_cons_iff, List.cons_lt_cons_iff, ih h]
      rcases lt_trichotomy x y with hlt | rfl | hgt
      · simp [hlt, hlt.not_gt, hlt.ne']
      · simp
      · simp [hgt, hgt.not_gt, hgt.ne']

end Lists

/-! ## 2. Lists of digits -/

/-- The characters are decimal digits. -/
def Digits (l : List Char) : Prop := ∀ c ∈ l, c.isDigit = true

/-- The number a list of digits denotes, the leading digit first. -/
abbrev value (l : List Char) : Nat := Nat.ofDigitChars 10 l 0

theorem value_cons (c : Char) (l : List Char) :
    value (c :: l) = 10 ^ l.length * (c.toNat - 48) + value l := by
  rw [value, Nat.ofDigitChars_cons, Nat.ofDigitChars_eq_ofDigitChars_zero]
  simp

theorem value_append (l m : List Char) : value (l ++ m) = 10 ^ m.length * value l + value m := by
  rw [value, Nat.ofDigitChars_append, Nat.ofDigitChars_eq_ofDigitChars_zero]

theorem digit_bounds {c : Char} (h : c.isDigit = true) : 48 ≤ c.toNat ∧ c.toNat ≤ 57 := by
  simpa [Char.isDigit, UInt32.le_iff_toNat_le] using h

theorem value_lt {l : List Char} (h : Digits l) : value l < 10 ^ l.length := by
  induction l with
  | nil => simp [value]
  | cons c l ih =>
    have hrest := ih fun x hx => h x (List.mem_cons_of_mem _ hx)
    have hc := digit_bounds (h c List.mem_cons_self)
    have hdigit : 10 ^ l.length * (c.toNat - 48) ≤ 10 ^ l.length * 9 :=
      Nat.mul_le_mul_left _ (by omega)
    rw [value_cons, List.length_cons, Nat.pow_succ]
    omega

/-- **Lists of digits of one length are in the order of their numbers.** -/
theorem value_lt_iff {l m : List Char} (hl : Digits l) (hm : Digits m)
    (hlen : l.length = m.length) : l < m ↔ value l < value m := by
  induction l generalizing m with
  | nil =>
    rw [List.eq_nil_of_length_eq_zero hlen.symm]
    simp
  | cons c l ih =>
    cases m with
    | nil => simp at hlen
    | cons d m =>
      have hlen' : l.length = m.length := by simpa using hlen
      have hl' : Digits l := fun x hx => hl x (List.mem_cons_of_mem _ hx)
      have hm' : Digits m := fun x hx => hm x (List.mem_cons_of_mem _ hx)
      have hvl := value_lt hl'
      have hvm := value_lt hm'
      have hc := digit_bounds (hl c List.mem_cons_self)
      have hd := digit_bounds (hm d List.mem_cons_self)
      rw [List.cons_lt_cons_iff, ih hl' hm' hlen', value_cons, value_cons, hlen']
      rw [hlen'] at hvl
      rcases lt_trichotomy c d with hlt | rfl | hgt
      · have hstep : 10 ^ m.length * (c.toNat - 48 + 1) ≤ 10 ^ m.length * (d.toNat - 48) :=
          Nat.mul_le_mul_left _ (by have : c.toNat < d.toNat := hlt; omega)
        rw [Nat.mul_succ] at hstep
        simp only [hlt, true_or, true_iff]
        omega
      · simp
      · have hstep : 10 ^ m.length * (d.toNat - 48 + 1) ≤ 10 ^ m.length * (c.toNat - 48) :=
          Nat.mul_le_mul_left _ (by have : d.toNat < c.toNat := hgt; omega)
        rw [Nat.mul_succ] at hstep
        simp only [hgt.not_gt, hgt.ne', false_and, or_false, false_iff]
        omega

/-- The front of a list of digits denotes what a division by a power of ten leaves. -/
theorem value_take {l : List Char} (h : Digits l) (k : Nat) :
    value (l.take k) = value l / 10 ^ (l.length - k) := by
  have hrest : value (l.drop k) < 10 ^ (l.length - k) := by
    rw [← List.length_drop]
    exact value_lt fun c hc => h c (List.mem_of_mem_drop hc)
  have hsplit : value l = 10 ^ (l.length - k) * value (l.take k) + value (l.drop k) := by
    rw [← List.length_drop, ← value_append, List.take_append_drop]
  rw [hsplit, Nat.mul_add_div (by positivity), Nat.div_eq_of_lt hrest, Nat.add_zero]

/-! ## 3. Numerals -/

/-- The number of decimal digits. -/
def digitCount (n : Nat) : Nat := n.repr.length

/-- One number is misread against the other: it has fewer digits, and it is above as many leading
    digits of the other. -/
def Misread (a b : Nat) : Prop :=
  (digitCount a < digitCount b ∧ b / 10 ^ (digitCount b - digitCount a) < a) ∨
    (digitCount b < digitCount a ∧ a / 10 ^ (digitCount a - digitCount b) < b)

instance (a b : Nat) : Decidable (Misread a b) := by
  unfold Misread
  infer_instance

theorem digitCount_eq (n : Nat) : digitCount n = (Nat.toDigits 10 n).length := by
  rw [digitCount, ← String.length_toList, Nat.toList_repr]

theorem toDigits_digits (n : Nat) : Digits (Nat.toDigits 10 n) :=
  fun _ hc => Nat.isDigit_of_mem_toDigits (by decide) (by decide) hc

/-- Fewer digits, smaller number. -/
theorem lt_of_digitCount_lt {a b : Nat} (h : digitCount a < digitCount b) : a < b := by
  by_contra hle
  have hpos : 0 < digitCount a := Nat.length_repr_pos
  have ha : a < 10 ^ digitCount a := (Nat.length_repr_le_iff hpos).mp le_rfl
  have hb : digitCount b ≤ digitCount a :=
    (Nat.length_repr_le_iff hpos).mpr ((not_lt.mp hle).trans_lt ha)
  omega

/-- **The order of numerals as texts is that of the numbers, reversed where one is misread.** -/
theorem repr_le_iff (a b : Nat) : a.repr ≤ b.repr ↔ (a ≤ b ↔ ¬ Misread a b) := by
  have hda := toDigits_digits a
  have hdb := toDigits_digits b
  have hca := digitCount_eq a
  have hcb := digitCount_eq b
  have hva : value (Nat.toDigits 10 a) = a := Nat.ofDigitChars_ten_toDigits
  have hvb : value (Nat.toDigits 10 b) = b := Nat.ofDigitChars_ten_toDigits
  rw [← not_lt, String.lt_iff_toList_lt, Nat.toList_repr, Nat.toList_repr]
  unfold Misread
  rcases lt_trichotomy (digitCount a) (digitCount b) with hlt | heq | hgt
  · have hab := lt_of_digitCount_lt hlt
    have hfront : Digits ((Nat.toDigits 10 b).take (digitCount a)) :=
      fun c hc => hdb c (List.mem_of_mem_take hc)
    have hlen : ((Nat.toDigits 10 b).take (digitCount a)).length = (Nat.toDigits 10 a).length := by
      rw [List.length_take, ← hca, ← hcb]
      omega
    have htake := value_take hdb (digitCount a)
    rw [list_lt_iff_take (by omega), ← hca, value_lt_iff hfront hda hlen, htake, hva, hvb, ← hcb]
    simp only [hlt, hlt.not_gt, hab.le, true_and, false_and, or_false, true_iff]
  · have hlen : (Nat.toDigits 10 b).length = (Nat.toDigits 10 a).length := by omega
    rw [value_lt_iff hdb hda hlen, hva, hvb, heq]
    simp
  · have hba := lt_of_digitCount_lt hgt
    have hfront : Digits ((Nat.toDigits 10 a).take (digitCount b)) :=
      fun c hc => hda c (List.mem_of_mem_take hc)
    have hlen : ((Nat.toDigits 10 a).take (digitCount b)).length = (Nat.toDigits 10 b).length := by
      rw [List.length_take, ← hca, ← hcb]
      omega
    have htake := value_take hda (digitCount b)
    rw [list_lt_iff_not_take (by omega), ← hcb, value_lt_iff hfront hdb hlen, htake, hva, hvb,
      ← hca]
    simp only [hgt, hgt.not_gt, hba.not_ge, true_and, false_and, false_or, false_iff, not_not]

end Numerals
