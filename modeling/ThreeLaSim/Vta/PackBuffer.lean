import ThreeLaSim.Core.BitFields
import ThreeLaSim.Core.LoopNest
import Mathlib.Data.Int.Notation
import Mathlib.Data.Nat.Basic

/-!
# `packBuffer`

The packing loop of the test library: a matrix is cut into blocks of `yBlock` rows and `xBlock`
columns, the blocks are taken row-major, and the elements of a block, again row-major, are packed
`D / W` to a word.

* **`packCells_eq`** — packing is OR-ing fields: the words written so far are complete, and the
  word being filled holds the fields of the current turn.
* **`PackAsserts.packBuffer_eq`** — the packed buffer is the packing of the blocks one after the
  other.
* **`PackAsserts.block_packBuffer`** — so block `r * n + c` of the buffer is the packing of block
  `(r, c)`.
-/

namespace ThreeLaSim

open LoopNest BitFields

/-- The variables of the packing loop: the words written so far, and the word being filled. -/
structure PackState where
  dst : List ℕ
  tmp : ℕ
  deriving DecidableEq, Repr

/-- One element: `tmp |= (src & mask) << ...`, and `dst[buffer_idx++] = tmp` when the word is
full.  `W` is the width of an element and `D` that of a word. -/
def packStep (W D : ℕ) (st : PackState) (blockIdx : ℕ) (v : ℤ) : PackState :=
  let ratio := D / W
  let tmp := (st.tmp ||| ((v % 2 ^ W).toNat <<< (blockIdx % ratio * W))) % 2 ^ D
  if blockIdx % ratio = ratio - 1 then ⟨st.dst ++ [tmp], 0⟩ else ⟨st.dst, tmp⟩

/-- The elements of block `(i, j)` of a matrix, with their index in the block. -/
def blockCells (src : ℕ → ℕ → ℤ) (yBlock xBlock i j : ℕ) : List (ℕ × ℤ) :=
  (List.range yBlock).flatMap fun k =>
    (List.range xBlock).map fun l =>
      (l + k * xBlock, src (i * yBlock + k) (j * xBlock + l))

/-- The loop over a list of elements. -/
def packCells (W D : ℕ) (st : PackState) (cells : List (ℕ × ℤ)) : PackState :=
  cells.foldl (fun st c => packStep W D st c.1 c.2) st

/-- `packBuffer`. -/
def packBuffer (W D : ℕ) (src : ℕ → ℕ → ℤ) (ySize xSize yBlock xBlock : ℕ) : List ℕ :=
  (packCells W D ⟨[], 0⟩
    ((List.range (ySize / yBlock)).flatMap fun i =>
      (List.range (xSize / xBlock)).flatMap fun j => blockCells src yBlock xBlock i j)).dst

/-- The parameters `packBuffer` is called with: the element width divides the word width, and a
block fills whole words (the assertion). -/
structure PackAsserts (W D yBlock xBlock : ℕ) : Prop where
  width_pos : 0 < W
  width_dvd : W ∣ D
  word_pos : 0 < D
  word_le : D ≤ 64
  block_mod : (W * xBlock * yBlock) % D = 0

/-- The words of one packed block. -/
def wordsPerBlock (W D yBlock xBlock : ℕ) : ℕ := yBlock * xBlock / (D / W)

/-- The packing of a single block. -/
def packBlock (W D : ℕ) (src : ℕ → ℕ → ℤ) (yBlock xBlock i j : ℕ) : List ℕ :=
  (packCells W D ⟨[], 0⟩ (blockCells src yBlock xBlock i j)).dst

/-! ## Packing -/

/-- The fields of a word in the order of the turns. -/
def wordFields (W r : ℕ) (f : ℕ → ℤ) (q t : ℕ) : ℕ := (f (q * r + t) % 2 ^ W).toNat

lemma wordFields_lt (W r : ℕ) (f : ℕ → ℤ) (q t : ℕ) : wordFields W r f q t < 2 ^ W := by
  have hpos : (0 : ℤ) < 2 ^ W := by positivity
  have hlt := Int.emod_lt_of_pos (f (q * r + t)) hpos
  rw [wordFields, Int.toNat_lt (Int.emod_nonneg _ hpos.ne')]
  exact_mod_cast hlt

/-- **Packing is OR-ing fields**: after `n` turns the complete words have been written and the word
being filled holds the fields of its turns. -/
theorem packCells_eq {W D r : ℕ} (hr : D / W = r) (hD : D = W * r) (hpos : 0 < r) (f : ℕ → ℤ)
    (n : ℕ) :
    packCells W D ⟨[], 0⟩ ((List.range n).map fun z => (z, f z))
      = ⟨(List.range (n / r)).map fun q => orFields W (wordFields W r f q) r,
          orFields W (wordFields W r f (n / r)) (n % r)⟩ := by
  induction n with
  | zero => simp [packCells, orFields]
  | succ n ih =>
      have hlt := Nat.mod_lt n hpos
      have hstep : packCells W D ⟨[], 0⟩ ((List.range (n + 1)).map fun z => (z, f z))
          = packStep W D (packCells W D ⟨[], 0⟩ ((List.range n).map fun z => (z, f z))) n (f n) := by
        rw [List.range_succ, List.map_append, packCells, List.foldl_append]
        rfl
      -- the word with one more field, which is not cut
      have hfield : wordFields W r f (n / r) (n % r) = (f n % 2 ^ W).toNat := by
        rw [wordFields, Nat.div_add_mod']
      have hcut : orFields W (wordFields W r f (n / r)) (n % r + 1) < 2 ^ D :=
        calc orFields W (wordFields W r f (n / r)) (n % r + 1)
            < (2 ^ W) ^ (n % r + 1) := orFields_lt (wordFields_lt W r f (n / r)) _
          _ ≤ (2 ^ W) ^ r := Nat.pow_le_pow_right (Nat.two_pow_pos W) hlt
          _ = 2 ^ D := by rw [hD, Nat.pow_mul]
      have htmp : (orFields W (wordFields W r f (n / r)) (n % r) |||
          (f n % 2 ^ W).toNat <<< (n % r * W)) % 2 ^ D
            = orFields W (wordFields W r f (n / r)) (n % r + 1) := by
        rw [← hfield]
        exact Nat.mod_eq_of_lt hcut
      rw [hstep, ih, packStep, hr]
      simp only [htmp]
      rcases succ_div_mod hpos n with ⟨hend, hdiv, hmod⟩ | ⟨hmid, hdiv, hmod⟩
      · have hfull : r - 1 + 1 = r := by omega
        rw [hdiv, hmod, hend, if_pos rfl, hfull, List.range_succ, List.map_append]
        rfl
      · rw [hdiv, hmod, if_neg (by omega)]

/-! ## One block -/

/-- The words written before play no role. -/
lemma packCells_append (W D : ℕ) (pre : List ℕ) :
    ∀ (cells : List (ℕ × ℤ)) (st : PackState),
      packCells W D ⟨pre ++ st.dst, st.tmp⟩ cells
        = ⟨pre ++ (packCells W D st cells).dst, (packCells W D st cells).tmp⟩
  | [], _ => rfl
  | c :: cells, st => by
      have hstep : packStep W D ⟨pre ++ st.dst, st.tmp⟩ c.1 c.2
          = ⟨pre ++ (packStep W D st c.1 c.2).dst, (packStep W D st c.1 c.2).tmp⟩ := by
        simp only [packStep]
        split_ifs <;> simp
      have ih := packCells_append W D pre cells (packStep W D st c.1 c.2)
      rw [← hstep] at ih
      exact ih

/-- A block as one loop. -/
lemma blockCells_eq (src : ℕ → ℕ → ℤ) (yBlock xBlock i j : ℕ) :
    blockCells src yBlock xBlock i j = (List.range (yBlock * xBlock)).map fun n =>
      (n, src (i * yBlock + n / xBlock) (j * xBlock + n % xBlock)) := by
  rw [blockCells, flatMap_range_map]
  refine List.map_congr_left fun n _ => ?_
  rw [Nat.add_comm (n % xBlock), Nat.div_add_mod']

namespace PackAsserts

variable {W D yBlock xBlock : ℕ} (h : PackAsserts W D yBlock xBlock)
include h

lemma ratio_pos : 0 < D / W := Nat.div_pos (Nat.le_of_dvd h.word_pos h.width_dvd) h.width_pos

lemma word_eq : D = W * (D / W) := (Nat.mul_div_cancel' h.width_dvd).symm

/-- A block fills whole words. -/
lemma ratio_dvd : D / W ∣ yBlock * xBlock := by
  have hblock := Nat.dvd_of_mod_eq_zero h.block_mod
  obtain ⟨r, hr⟩ := h.width_dvd
  rw [Nat.mul_assoc, Nat.mul_comm xBlock, hr] at hblock
  rw [hr, Nat.mul_div_cancel_left _ h.width_pos]
  exact Nat.dvd_of_mul_dvd_mul_left h.width_pos hblock

lemma length_packBlock (src : ℕ → ℕ → ℤ) (i j : ℕ) :
    (packBlock W D src yBlock xBlock i j).length = wordsPerBlock W D yBlock xBlock := by
  rw [packBlock, blockCells_eq, packCells_eq rfl h.word_eq h.ratio_pos, List.length_map,
    List.length_range, wordsPerBlock]

/-- Packing starts afresh after every block. -/
lemma packCells_blockCells (src : ℕ → ℕ → ℤ) (dst : List ℕ) (i j : ℕ) :
    packCells W D ⟨dst, 0⟩ (blockCells src yBlock xBlock i j)
      = ⟨dst ++ packBlock W D src yBlock xBlock i j, 0⟩ := by
  have happ := packCells_append W D dst (blockCells src yBlock xBlock i j) ⟨[], 0⟩
  rw [List.append_nil] at happ
  rw [happ, packBlock]
  congr 1
  rw [blockCells_eq, packCells_eq rfl h.word_eq h.ratio_pos, Nat.mod_eq_zero_of_dvd h.ratio_dvd]
  rfl

/-- **The packed buffer is the packing of the blocks one after the other**, row-major. -/
theorem packBuffer_eq (src : ℕ → ℕ → ℤ) (ySize xSize : ℕ) :
    packBuffer W D src ySize xSize yBlock xBlock
      = (List.range (ySize / yBlock * (xSize / xBlock))).flatMap fun b =>
          packBlock W D src yBlock xBlock (b / (xSize / xBlock)) (b % (xSize / xBlock)) := by
  have hblocks : ∀ (l : List ℕ) (i j : ℕ → ℕ) (dst : List ℕ),
      packCells W D ⟨dst, 0⟩ (l.flatMap fun b => blockCells src yBlock xBlock (i b) (j b))
        = ⟨dst ++ l.flatMap fun b => packBlock W D src yBlock xBlock (i b) (j b), 0⟩ := by
    intro l i j
    induction l with
    | nil => simp [packCells]
    | cons b l ih =>
        intro dst
        rw [List.flatMap_cons, packCells, List.foldl_append, ← packCells, ← packCells,
          h.packCells_blockCells, ih, List.flatMap_cons, List.append_assoc]
  rw [packBuffer, flatMap_range_mul, hblocks]
  exact List.nil_append _

/-- **Block `b` of the packed buffer** is the packing of one block of the matrix. -/
theorem block_packBuffer (src : ℕ → ℕ → ℤ) {ySize xSize b : ℕ}
    (hb : b < ySize / yBlock * (xSize / xBlock)) :
    ((packBuffer W D src ySize xSize yBlock xBlock).drop
        (b * wordsPerBlock W D yBlock xBlock)).take (wordsPerBlock W D yBlock xBlock)
      = packBlock W D src yBlock xBlock (b / (xSize / xBlock)) (b % (xSize / xBlock)) := by
  rw [h.packBuffer_eq]
  exact flatMap_range_slice _ (fun x => h.length_packBlock src _ _) _ b hb

end PackAsserts

end ThreeLaSim
