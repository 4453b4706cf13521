import Mathlib.Data.Nat.Basic
import Mathlib.Algebra.BigOperators.Group.List.Basic
import Mathlib.Tactic.Ring

/-!
# Words laid out in fields

A record is put into one word field by field, from the low bits up, each field with a width of its
own.  Fields that fit their widths do not touch each other.

* **`readFields_packFields`** — they are read back as they were put in.
* **`packFields_lt`** — the word is as wide as its fields together.
-/

namespace FieldLayout

/-- A field of a word. -/
structure Field where
  width : ℕ
  value : ℕ
  deriving DecidableEq, Repr

/-- The value fits the width. -/
def Field.Fits (f : Field) : Prop := f.value < 2 ^ f.width

instance : DecidablePred Field.Fits := fun f => inferInstanceAs (Decidable (f.value < 2 ^ f.width))

/-- The word with these fields, the first one in the low bits. -/
def packFields : List Field → ℕ
  | [] => 0
  | f :: fs => f.value + 2 ^ f.width * packFields fs

/-- The fields of a word, for a list of widths. -/
def readFields : List ℕ → ℕ → List ℕ
  | [], _ => []
  | w :: ws, n => n % 2 ^ w :: readFields ws (n / 2 ^ w)

/-- The first field is the word modulo its place. -/
lemma packFields_mod {f : Field} (hf : f.Fits) (fs : List Field) :
    packFields (f :: fs) % 2 ^ f.width = f.value := by
  rw [packFields, Nat.add_mul_mod_self_left, Nat.mod_eq_of_lt hf]

/-- The other fields are what is left. -/
lemma packFields_div {f : Field} (hf : f.Fits) (fs : List Field) :
    packFields (f :: fs) / 2 ^ f.width = packFields fs := by
  rw [packFields, Nat.add_mul_div_left _ _ (Nat.two_pow_pos _), Nat.div_eq_of_lt hf, Nat.zero_add]

/-- **Fields are read back as they were put in.** -/
theorem readFields_packFields {fs : List Field} (h : ∀ f ∈ fs, f.Fits) :
    readFields (fs.map Field.width) (packFields fs) = fs.map Field.value := by
  induction fs with
  | nil => rfl
  | cons f fs ih =>
      obtain ⟨hf, hfs⟩ := List.forall_mem_cons.mp h
      rw [List.map_cons, List.map_cons, readFields, packFields_mod hf, packFields_div hf, ih hfs]

/-- **The word is as wide as its fields together.** -/
theorem packFields_lt {fs : List Field} (h : ∀ f ∈ fs, f.Fits) :
    packFields fs < 2 ^ (fs.map Field.width).sum := by
  induction fs with
  | nil => simp [packFields]
  | cons f fs ih =>
      obtain ⟨hf, hfs⟩ := List.forall_mem_cons.mp h
      have hrest := ih hfs
      rw [packFields, List.map_cons, List.sum_cons, Nat.pow_add]
      calc f.value + 2 ^ f.width * packFields fs
          < 2 ^ f.width + 2 ^ f.width * packFields fs := Nat.add_lt_add_right hf _
        _ = 2 ^ f.width * (packFields fs + 1) := by ring
        _ ≤ 2 ^ f.width * 2 ^ (fs.map Field.width).sum := Nat.mul_le_mul_left _ hrest

end FieldLayout
