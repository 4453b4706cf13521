import Mathlib.Algebra.Order.Ring.Nat
import Mathlib.Tactic.Common

/-!
# Expressions of type `int`

A C program computes a size from natural numbers by sums, products and quotients of type `int`.  A
sum or a product that is no `int` is undefined, also where the value of the whole expression would
be one again after a division.

* `eval` — the expression as the program computes it; none where an operation is undefined.
* **`eval_eq_some_iff`** — it has its exact value when every operation in it stays an `int`.
-/

/-- An expression over variables and constants, which are `int`s. -/
inductive IntExpr
  | var (n : ℕ)
  | add (a b : IntExpr)
  | mul (a b : IntExpr)
  | div (a b : IntExpr)
  deriving DecidableEq, Repr

namespace IntExpr

instance : Coe ℕ IntExpr := ⟨.var⟩

instance : Add IntExpr := ⟨.add⟩

instance : Mul IntExpr := ⟨.mul⟩

instance : Div IntExpr := ⟨.div⟩

/-- The exact value. -/
def value : IntExpr → ℕ
  | var n => n
  | add a b => a.value + b.value
  | mul a b => a.value * b.value
  | div a b => a.value / b.value

/-- The result of an operation. -/
def toInt (n : ℕ) : Option ℕ := if n < 2 ^ 31 then some n else none

/-- The expression as it is computed. -/
def eval : IntExpr → Option ℕ
  | var n => some n
  | add a b => do toInt ((← a.eval) + (← b.eval))
  | mul a b => do toInt ((← a.eval) * (← b.eval))
  | div a b => do
      let x ← a.eval
      let y ← b.eval
      if y = 0 then none else some (x / y)

/-- Every operation in the expression is defined. -/
def Fits : IntExpr → Prop
  | var _ => True
  | add a b => a.Fits ∧ b.Fits ∧ a.value + b.value < 2 ^ 31
  | mul a b => a.Fits ∧ b.Fits ∧ a.value * b.value < 2 ^ 31
  | div a b => a.Fits ∧ b.Fits ∧ 0 < b.value

section Simp

variable (n : ℕ) (a b : IntExpr)

@[simp] lemma value_var : (var n).value = n := rfl

@[simp] lemma value_add : (a + b).value = a.value + b.value := rfl

@[simp] lemma value_mul : (a * b).value = a.value * b.value := rfl

@[simp] lemma value_div : (a / b).value = a.value / b.value := rfl

@[simp] lemma fits_var : (var n).Fits := trivial

@[simp] lemma fits_add : (a + b).Fits ↔ a.Fits ∧ b.Fits ∧ a.value + b.value < 2 ^ 31 := Iff.rfl

@[simp] lemma fits_mul : (a * b).Fits ↔ a.Fits ∧ b.Fits ∧ a.value * b.value < 2 ^ 31 := Iff.rfl

@[simp] lemma fits_div : (a / b).Fits ↔ a.Fits ∧ b.Fits ∧ 0 < b.value := Iff.rfl

end Simp

lemma toInt_eq_some_iff {m n : ℕ} : toInt m = some n ↔ m < 2 ^ 31 ∧ m = n := by
  rw [toInt]
  split_ifs with h
  · rw [Option.some_inj]
    exact ⟨fun heq => ⟨h, heq⟩, And.right⟩
  · exact ⟨nofun, fun hn => absurd hn.1 h⟩

/-- **The computed value** is the exact one, as long as every operation is defined. -/
theorem eval_eq_some_iff {e : IntExpr} {n : ℕ} : e.eval = some n ↔ e.Fits ∧ e.value = n := by
  induction e generalizing n with
  | var m => simp [eval, Fits, value]
  | add a b iha ihb | mul a b iha ihb =>
      simp only [eval, Fits, value, Option.bind_eq_bind, Option.bind_eq_some_iff, iha, ihb,
        toInt_eq_some_iff]
      constructor
      · rintro ⟨x, ⟨ha, rfl⟩, y, ⟨hb, rfl⟩, hlt, rfl⟩
        exact ⟨⟨ha, hb, hlt⟩, rfl⟩
      · rintro ⟨⟨ha, hb, hlt⟩, rfl⟩
        exact ⟨_, ⟨ha, rfl⟩, _, ⟨hb, rfl⟩, hlt, rfl⟩
  | div a b iha ihb =>
      simp only [eval, Fits, value, Option.bind_eq_bind, Option.bind_eq_some_iff, iha, ihb]
      constructor
      · rintro ⟨x, ⟨ha, rfl⟩, y, ⟨hb, rfl⟩, hdiv⟩
        split_ifs at hdiv with hzero
        exact ⟨⟨ha, hb, Nat.pos_of_ne_zero hzero⟩, Option.some_inj.mp hdiv⟩
      · rintro ⟨⟨ha, hb, hpos⟩, rfl⟩
        exact ⟨_, ⟨ha, rfl⟩, _, ⟨hb, rfl⟩, if_neg (Nat.ne_of_gt hpos)⟩

instance decidableFits : DecidablePred Fits
  | var _ => inferInstanceAs (Decidable True)
  | add a b | mul a b | div a b =>
      have := decidableFits a
      have := decidableFits b
      inferInstanceAs (Decidable (_ ∧ _ ∧ _))

end IntExpr
