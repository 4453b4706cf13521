import Mathlib.Data.Nat.Bitwise
import Mathlib.Tactic.Ring
import Mathlib.Tactic.Positivity

/-!
# Words made of fields of equal width

A word is filled by OR-ing fields of `w` bits into it, each shifted to its place.  Fields that fit
their width do not overlap, so the word is a number in base `2 ^ w` with the fields as digits, and
shifting and masking reads a field back.

* **`field_orFields`** — a field is read back as it was written.
* **`orFields_field`** — a word that fits its width is made of its own fields.
-/

namespace BitFields

/-- The OR of the first `n` fields, field `i` shifted by `i * w` bits. -/
def orFields (w : ℕ) (f : ℕ → ℕ) : ℕ → ℕ
  | 0 => 0
  | n + 1 => orFields w f n ||| f n <<< (n * w)

/-- Field `i` of a word. -/
def field (w word i : ℕ) : ℕ := word >>> (i * w) &&& (2 ^ w - 1)

lemma field_eq (w word i : ℕ) : field w word i = word / (2 ^ w) ^ i % 2 ^ w := by
  rw [field, Nat.shiftRight_eq_div_pow, Nat.and_two_pow_sub_one_eq_mod, Nat.mul_comm i, Nat.pow_mul]

lemma field_lt (w word i : ℕ) : field w word i < 2 ^ w := by
  rw [field_eq]
  exact Nat.mod_lt _ (Nat.two_pow_pos w)

variable {w : ℕ} {f : ℕ → ℕ}

/-- OR-ing one more field into a word it does not overlap adds it in its place. -/
lemma or_field {a : ℕ} (n b : ℕ) (ha : a < (2 ^ w) ^ n) :
    a ||| b <<< (n * w) = a + b * (2 ^ w) ^ n := by
  rw [← Nat.pow_mul, Nat.mul_comm w n] at ha ⊢
  rw [Nat.or_comm, ← Nat.shiftLeft_add_eq_or_of_lt ha, Nat.shiftLeft_eq, Nat.add_comm]

/-- Fields that fit their width leave the bits above them unset. -/
lemma orFields_lt (hf : ∀ i, f i < 2 ^ w) : ∀ n, orFields w f n < (2 ^ w) ^ n
  | 0 => by simp [orFields]
  | n + 1 => by
      have ih := orFields_lt hf n
      rw [orFields, or_field n (f n) ih]
      calc orFields w f n + f n * (2 ^ w) ^ n
          < (2 ^ w) ^ n + f n * (2 ^ w) ^ n := by omega
        _ = (f n + 1) * (2 ^ w) ^ n := by ring
        _ ≤ 2 ^ w * (2 ^ w) ^ n := Nat.mul_le_mul_right _ (hf n)
        _ = (2 ^ w) ^ (n + 1) := by ring

/-- The next field adds a digit. -/
lemma orFields_succ (hf : ∀ i, f i < 2 ^ w) (n : ℕ) :
    orFields w f (n + 1) = orFields w f n + f n * (2 ^ w) ^ n :=
  or_field n (f n) (orFields_lt hf n)

lemma orFields_congr {g : ℕ → ℕ} : ∀ {n : ℕ}, (∀ i < n, f i = g i) → orFields w f n = orFields w g n
  | 0, _ => rfl
  | n + 1, h => by
      have ih := orFields_congr fun i hi => h i (Nat.lt_succ_of_lt hi)
      rw [orFields, orFields, ih, h n (Nat.lt_succ_self n)]

/-- **A field is read back as it was written.** -/
theorem field_orFields (hf : ∀ i, f i < 2 ^ w) {n i : ℕ} (hi : i < n) :
    field w (orFields w f n) i = f i := by
  rw [field_eq]
  induction n with
  | zero => omega
  | succ n ih =>
      rw [orFields_succ hf]
      rcases Nat.lt_or_eq_of_le (Nat.le_of_lt_succ hi) with hlt | rfl
      · -- the new digit stands above the one that is read
        obtain ⟨d, rfl⟩ := Nat.exists_eq_add_of_lt hlt
        have hplace : f (i + d + 1) * (2 ^ w) ^ (i + d + 1)
            = f (i + d + 1) * (2 ^ w) ^ d * 2 ^ w * (2 ^ w) ^ i := by ring
        rw [hplace, Nat.add_mul_div_right _ _ (by positivity), Nat.add_mul_mod_self_right]
        exact ih hlt
      · rw [Nat.add_mul_div_right _ _ (by positivity), Nat.div_eq_of_lt (orFields_lt hf i),
          Nat.zero_add, Nat.mod_eq_of_lt (hf i)]

/-- The fields below a place make up the word modulo that place. -/
lemma orFields_field_mod (w word : ℕ) : ∀ n, orFields w (field w word) n = word % (2 ^ w) ^ n
  | 0 => by simp [orFields, Nat.mod_one]
  | n + 1 => by
      rw [orFields_succ (field_lt w word), orFields_field_mod w word n, field_eq, Nat.mod_pow_succ,
        Nat.mul_comm]

/-- **A word that fits its width is made of its own fields.** -/
theorem orFields_field {n word : ℕ} (h : word < (2 ^ w) ^ n) :
    orFields w (field w word) n = word := by
  rw [orFields_field_mod, Nat.mod_eq_of_lt h]

end BitFields
