import Mathlib.Algebra.BigOperators.Group.List.Basic
import Mathlib.Algebra.Order.Ring.Abs
import Mathlib.Tactic.Ring

/-!
# Sums in two's complement

Adding integers one after the other into a word of `w` bits computes their sum modulo `2 ^ w`
(`foldl_add_ofInt`).  The sum itself is recovered when the summands are few and small enough
(`toInt_foldl_add`).
-/

namespace FixedWidth

variable {α : Type*} {w : ℕ}

/-- Accumulating into a word adds the sum modulo `2 ^ w`. -/
theorem foldl_add_ofInt (f : α → ℤ) :
    ∀ (l : List α) (b : BitVec w),
      l.foldl (fun s x => s + BitVec.ofInt w (f x)) b = b + BitVec.ofInt w (l.map f).sum
  | [], b => by simp
  | x :: l, b => by
      rw [List.foldl_cons, foldl_add_ofInt f l, List.map_cons, List.sum_cons, BitVec.ofInt_add,
        BitVec.add_assoc]

/-- A sum of bounded summands. -/
lemma abs_sum_le (f : α → ℤ) {B : ℤ} :
    ∀ l : List α, (∀ x ∈ l, |f x| ≤ B) → |(l.map f).sum| ≤ l.length * B
  | [], _ => by simp
  | x :: l, h => by
      have hx := h x List.mem_cons_self
      have ih := abs_sum_le f l fun y hy => h y (List.mem_cons_of_mem x hy)
      calc |((x :: l).map f).sum| ≤ |f x| + |(l.map f).sum| := by
            rw [List.map_cons, List.sum_cons]
            exact abs_add_le _ _
        _ ≤ B + l.length * B := add_le_add hx ih
        _ = (x :: l).length * B := by
            rw [List.length_cons]
            push_cast
            ring

/-- An integer in range is its own encoding. -/
lemma toInt_ofInt_of_abs_lt {x : ℤ} (h : |x| < 2 ^ w) : (BitVec.ofInt (w + 1) x).toInt = x := by
  obtain ⟨hlo, hhi⟩ := abs_lt.mp h
  refine BitVec.toInt_ofInt_eq_self w.succ_pos ?_ ?_
  · simpa using hlo.le
  · simpa using hhi

/-- **No wrap-around**: few enough small summands are accumulated exactly. -/
theorem toInt_foldl_add (f : α → ℤ) {B : ℤ} {l : List α} (hB : ∀ x ∈ l, |f x| ≤ B)
    (hl : l.length * B < 2 ^ w) :
    (l.foldl (fun s x => s + BitVec.ofInt (w + 1) (f x)) 0#(w + 1)).toInt = (l.map f).sum := by
  rw [foldl_add_ofInt, BitVec.zero_add]
  exact toInt_ofInt_of_abs_lt (lt_of_le_of_lt (abs_sum_le f l hB) hl)

/-- The product of two words. -/
lemma abs_toInt_mul_le (x y : BitVec (w + 1)) : |x.toInt * y.toInt| ≤ 2 ^ w * 2 ^ w := by
  have hbound : ∀ z : BitVec (w + 1), |z.toInt| ≤ 2 ^ w := by
    intro z
    have hlo := BitVec.le_toInt z
    have hhi := BitVec.toInt_lt (x := z)
    simp only [Nat.add_sub_cancel] at hlo hhi
    exact abs_le.mpr ⟨hlo, hhi.le⟩
  rw [abs_mul]
  exact mul_le_mul (hbound x) (hbound y) (abs_nonneg _) (pow_nonneg (by decide) w)

end FixedWidth
