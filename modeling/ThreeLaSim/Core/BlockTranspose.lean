import Mathlib.Data.Set.Function
import Mathlib.Tactic.Ring

/-!
# Transposing an index space block by block

The index space `ℕ` is cut into blocks of `R * C` entries.  `blockTranspose R C` reads each block
as `C` rows of `R` entries and writes it as `R` rows of `C` entries.  Every index has one form
`g * (R * C) + y * R + x` with `x < R` and `y < C` (`exists_eq`), on which the map just swaps the
two inner coordinates (`blockTranspose_mk`); so it is undone by `blockTranspose C R`, and it
permutes every initial run of whole blocks.
-/

namespace BlockTranspose

/-- Where entry `i` goes when every block of `R * C` entries is transposed. -/
def blockTranspose (R C i : ℕ) : ℕ :=
  i / (R * C) * (R * C) + i % (R * C) % R * C + i % (R * C) / R

variable {R C : ℕ}

/-- Every index has block, row and column coordinates. -/
lemma exists_eq (hR : 0 < R) (hC : 0 < C) (i : ℕ) :
    ∃ g x y, x < R ∧ y < C ∧ i = g * (R * C) + y * R + x := by
  have hRC : 0 < R * C := Nat.mul_pos hR hC
  refine ⟨i / (R * C), i % (R * C) % R, i % (R * C) / R, Nat.mod_lt _ hR, ?_, ?_⟩
  · exact Nat.div_lt_of_lt_mul (Nat.mod_lt _ hRC)
  · have h₁ := Nat.div_add_mod' i (R * C)
    have h₂ := Nat.div_add_mod' (i % (R * C)) R
    omega

lemma inner_lt {x y : ℕ} (hx : x < R) (hy : y < C) : y * R + x < R * C :=
  calc y * R + x < y * R + R := by omega
    _ = (y + 1) * R := by ring
    _ ≤ C * R := Nat.mul_le_mul_right R hy
    _ = R * C := Nat.mul_comm C R

/-- The block number of an index in coordinates. -/
lemma div_mk {g x y : ℕ} (hx : x < R) (hy : y < C) :
    (g * (R * C) + y * R + x) / (R * C) = g := by
  have hlt := inner_lt hx hy
  rw [Nat.add_assoc, Nat.mul_comm g, Nat.mul_add_div (by omega), Nat.div_eq_of_lt hlt,
    Nat.add_zero]

/-- The place inside its block of an index in coordinates. -/
lemma mod_mk {g x y : ℕ} (hx : x < R) (hy : y < C) :
    (g * (R * C) + y * R + x) % (R * C) = y * R + x := by
  rw [Nat.add_assoc, Nat.mul_comm g, Nat.mul_add_mod, Nat.mod_eq_of_lt (inner_lt hx hy)]

/-- **Transposition swaps the inner coordinates.** -/
theorem blockTranspose_mk {g x y : ℕ} (hx : x < R) (hy : y < C) :
    blockTranspose R C (g * (R * C) + y * R + x) = g * (R * C) + x * C + y := by
  have hR : 0 < R := by omega
  rw [blockTranspose, div_mk hx hy, mod_mk hx hy]
  rw [Nat.mul_comm y R, Nat.mul_add_mod, Nat.mod_eq_of_lt hx, Nat.mul_add_div hR,
    Nat.div_eq_of_lt hx, Nat.add_zero]

/-- Transposing back. -/
theorem blockTranspose_blockTranspose (hR : 0 < R) (hC : 0 < C) (i : ℕ) :
    blockTranspose C R (blockTranspose R C i) = i := by
  obtain ⟨g, x, y, hx, hy, rfl⟩ := exists_eq hR hC i
  rw [blockTranspose_mk hx hy, Nat.mul_comm R C, blockTranspose_mk hy hx]

lemma blockTranspose_injective (hR : 0 < R) (hC : 0 < C) :
    Function.Injective (blockTranspose R C) :=
  Function.LeftInverse.injective (blockTranspose_blockTranspose hR hC)

/-- Transposition keeps an index inside any run of whole blocks. -/
lemma blockTranspose_lt (hR : 0 < R) (hC : 0 < C) {i n : ℕ} (hi : i < n * (R * C)) :
    blockTranspose R C i < n * (R * C) := by
  obtain ⟨g, x, y, hx, hy, rfl⟩ := exists_eq hR hC i
  rw [blockTranspose_mk hx hy]
  have hg : g < n := by
    by_contra hle
    have := Nat.mul_le_mul_right (R * C) (Nat.not_lt.mp hle)
    omega
  have hlt : x * C + y < C * R := inner_lt hy hx
  have hstep : g * (R * C) + R * C ≤ n * (R * C) := by
    have := Nat.mul_le_mul_right (R * C) (Nat.succ_le_of_lt hg)
    rwa [Nat.succ_mul] at this
  have hcomm := Nat.mul_comm C R
  omega

/-- **Transposition permutes every initial run of whole blocks.** -/
theorem bijOn (hR : 0 < R) (hC : 0 < C) (n : ℕ) :
    Set.BijOn (blockTranspose R C) (Set.Iio (n * (R * C))) (Set.Iio (n * (R * C))) := by
  refine Set.BijOn.mk (fun i hi => blockTranspose_lt hR hC hi)
    ((blockTranspose_injective hR hC).injOn) fun j hj => ?_
  have hj' : j < n * (C * R) := by rwa [Nat.mul_comm C R]
  refine ⟨blockTranspose C R j, ?_, blockTranspose_blockTranspose hC hR j⟩
  have := blockTranspose_lt hC hR hj'
  rwa [Nat.mul_comm C R] at this

/-! ## From entries to cells -/

/-- An entry map carried to entries of `w` cells each, keeping the place inside an entry. -/
def cellMap (w : ℕ) (f : ℕ → ℕ) (o : ℕ) : ℕ := w * f (o / w) + o % w

lemma cellMap_mk {w i b : ℕ} (f : ℕ → ℕ) (hb : b < w) : cellMap w f (w * i + b) = w * f i + b := by
  rw [cellMap, Nat.mul_add_div (by omega), Nat.div_eq_of_lt hb, Nat.add_zero, Nat.mul_add_mod,
    Nat.mod_eq_of_lt hb]

/-- A permutation of the first `n` entries permutes their cells. -/
theorem bijOn_cellMap {w n : ℕ} (hw : 0 < w) {f : ℕ → ℕ}
    (hf : Set.BijOn f (Set.Iio n) (Set.Iio n)) :
    Set.BijOn (cellMap w f) (Set.Iio (w * n)) (Set.Iio (w * n)) := by
  have hlt : ∀ {i b}, i < n → b < w → w * i + b < w * n := fun {i b} hi hb => by
    have := Nat.mul_le_mul_left w (Nat.succ_le_of_lt hi)
    rw [Nat.mul_succ] at this
    omega
  refine Set.BijOn.mk (fun o ho => ?_) (fun o ho o' ho' h => ?_) fun o ho => ?_
  · exact hlt (hf.mapsTo (Nat.div_lt_of_lt_mul ho)) (Nat.mod_lt _ hw)
  · -- the two images agree entry by entry and cell by cell
    have hdiv : f (o / w) = f (o' / w) := by
      have := congrArg (· / w) h
      simpa [cellMap, Nat.mul_add_div hw, Nat.div_eq_of_lt (Nat.mod_lt _ hw)] using this
    have hmod : o % w = o' % w := by
      have := congrArg (· % w) h
      simpa [cellMap, Nat.mul_add_mod] using this
    have hentry := hf.injOn (Nat.div_lt_of_lt_mul ho) (Nat.div_lt_of_lt_mul ho') hdiv
    rw [← Nat.div_add_mod o w, ← Nat.div_add_mod o' w, hentry, hmod]
  · obtain ⟨i, hi, hfi⟩ := hf.surjOn (Nat.div_lt_of_lt_mul ho)
    refine ⟨w * i + o % w, hlt hi (Nat.mod_lt _ hw), ?_⟩
    rw [cellMap_mk f (Nat.mod_lt _ hw), hfi, Nat.div_add_mod]

end BlockTranspose
