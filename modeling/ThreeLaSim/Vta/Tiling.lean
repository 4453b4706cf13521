import ThreeLaSim.Vta.PackBuffer
import ThreeLaSim.Vta.TileSchedule
import ThreeLaSim.Vta.Uops

/-!
# Tiles of packed matrices

A 2D memory instruction moves a rectangle of blocks between a packed matrix in DRAM and a run of
SRAM slots.  `load_tile` says when that rectangle is a tile of the matrix: the words moved are then
the packing of the submatrix.

* **`BlockedGemm.tiling_agrees`** — at every step of `blocked_gemm_test` the loads and the store
  move the step's tiles, and the GEMM combines slots that belong together.
-/

namespace ThreeLaSim

open LoopNest

/-- A block of a submatrix that starts at a block. -/
lemma packBlock_submatrix (W D : ℕ) (src : ℕ → ℕ → ℤ) (yBlock xBlock r c a b : ℕ) :
    packBlock W D (fun y x => src (yBlock * r + y) (xBlock * c + x)) yBlock xBlock a b
      = packBlock W D src yBlock xBlock (r + a) (c + b) := by
  have hshift : ∀ n t s k : ℕ, n * t + (s * n + k) = (t + s) * n + k := fun n t s k => by ring
  simp only [packBlock, blockCells, hshift]

namespace MemInsn

variable (m : MemInsn)

/-- The SRAM slot of block `(y, x)` of the transfer. -/
def slot (y x : ℕ) : ℕ := m.sramBase + y * m.xSize + x

/-- The transfer: SRAM slots with the DRAM blocks they are moved from or to. -/
def moves : List (ℕ × ℕ) :=
  (List.range m.ySize).flatMap fun y =>
    (List.range m.xSize).map fun x => (m.slot y x, m.dramBase + y * m.xStride + x)

/-- The words of the DRAM blocks of the transfer, in slot order, for blocks of `n` words. -/
def movedWords (n : ℕ) (buf : List ℕ) : List ℕ :=
  m.moves.flatMap fun mv => (buf.drop (mv.2 * n)).take n

/-- The transfer moves the tile of `src` at `(row, col)` of side `block`, in row-major block order,
to or from successive slots. -/
def MovesTile (W D : ℕ) (src : ℕ → ℕ → ℤ) (ySize xSize yBlock xBlock row col block : ℕ) : Prop :=
  m.moves.map Prod.fst = (List.range (block / yBlock * (block / xBlock))).map (m.sramBase + ·) ∧
  m.movedWords (wordsPerBlock W D yBlock xBlock) (packBuffer W D src ySize xSize yBlock xBlock)
    = packBuffer W D (fun y x => src (row + y) (col + x)) block block yBlock xBlock

/-- A transfer as one loop over its blocks. -/
lemma moves_eq : m.moves = (List.range (m.ySize * m.xSize)).map fun n =>
    (m.sramBase + n, m.dramBase + n / m.xSize * m.xStride + n % m.xSize) := by
  rw [moves, flatMap_range_map]
  refine List.map_congr_left fun n _ => ?_
  rw [slot, Nat.add_assoc m.sramBase, Nat.div_add_mod']

/-- **Loading a tile**: a transfer whose DRAM rectangle starts at the tile's first block and has
its shape moves the packing of the tile. -/
theorem load_tile {W D yBlock xBlock : ℕ} (h : PackAsserts W D yBlock xBlock) (src : ℕ → ℕ → ℤ)
    {ySize xSize row col block : ℕ} (hy : 0 < yBlock) (hx : 0 < xBlock)
    (hrow : yBlock ∣ row) (hcol : xBlock ∣ col)
    (hyBlock : yBlock ∣ block) (hxBlock : xBlock ∣ block)
    (hrow_le : row + block ≤ ySize) (hcol_le : col + block ≤ xSize)
    (hbase : m.dramBase = row / yBlock * (xSize / xBlock) + col / xBlock)
    (hstride : m.xStride = xSize / xBlock)
    (hym : m.ySize = block / yBlock) (hxm : m.xSize = block / xBlock) :
    m.MovesTile W D src ySize xSize yBlock xBlock row col block := by
  rw [MovesTile, movedWords, moves_eq, hbase, hstride, hym, hxm]
  refine ⟨by rw [List.map_map]; rfl, ?_⟩
  rw [List.flatMap_map, h.packBuffer_eq (fun y x => src (row + y) (col + x))]
  refine List.flatMap_congr fun n hn => ?_
  have hn := List.mem_range.mp hn
  obtain ⟨r, rfl⟩ := hrow
  obtain ⟨c, rfl⟩ := hcol
  have hw : 0 < block / xBlock := Nat.pos_of_ne_zero fun h0 => by simp [h0] at hn
  have hr : n / (block / xBlock) < block / yBlock := Nat.div_lt_of_lt_mul (by rwa [Nat.mul_comm])
  have hc : n % (block / xBlock) < block / xBlock := Nat.mod_lt n hw
  have hyFit : r + block / yBlock ≤ ySize / yBlock := by
    rw [Nat.le_div_iff_mul_le hy, Nat.add_mul, Nat.div_mul_cancel hyBlock, Nat.mul_comm r]
    exact hrow_le
  have hxFit : c + block / xBlock ≤ xSize / xBlock := by
    rw [Nat.le_div_iff_mul_le hx, Nat.add_mul, Nat.div_mul_cancel hxBlock, Nat.mul_comm c]
    exact hcol_le
  have hrowcol : r * (xSize / xBlock) + c + n / (block / xBlock) * (xSize / xBlock)
        + n % (block / xBlock)
      = (xSize / xBlock) * (r + n / (block / xBlock)) + (c + n % (block / xBlock)) := by ring
  have hlt : c + n % (block / xBlock) < xSize / xBlock := by omega
  rw [Nat.mul_div_cancel_left _ hy, Nat.mul_div_cancel_left _ hx, hrowcol, packBlock_submatrix]
  rw [h.block_packBuffer src, Nat.mul_add_div (by omega), Nat.div_eq_of_lt hlt, Nat.add_zero,
    Nat.mul_add_mod, Nat.mod_eq_of_lt hlt]
  -- the block lies inside the buffer
  calc (xSize / xBlock) * (r + n / (block / xBlock)) + (c + n % (block / xBlock))
      < (xSize / xBlock) * (r + n / (block / xBlock)) + xSize / xBlock := by omega
    _ = (r + n / (block / xBlock) + 1) * (xSize / xBlock) := by ring
    _ ≤ ySize / yBlock * (xSize / xBlock) := Nat.mul_le_mul_right _ (by omega)

end MemInsn

/-- One more stride fits between two multiples of it. -/
lemma add_le_of_dvd {d a b : ℕ} (ha : d ∣ a) (hb : d ∣ b) (hab : a < b) : a + d ≤ b := by
  obtain ⟨x, rfl⟩ := ha
  obtain ⟨y, rfl⟩ := hb
  have hxy : x < y := Nat.lt_of_mul_lt_mul_left hab
  calc d * x + d = d * (x + 1) := by ring
    _ ≤ d * y := Nat.mul_le_mul_left d hxy

/-- A row-major offset counted in blocks. -/
lemma blockOffset_eq {n width : ℕ} (hn : 0 < n) (h : n ∣ width) (y x : ℕ) :
    (y * width + x) / n = y * (width / n) + x / n := by
  obtain ⟨q, rfl⟩ := h
  have hmul : y * (n * q) + x = n * (y * q) + x := by ring
  rw [hmul, Nat.mul_add_div hn, Nat.mul_div_cancel_left _ hn]

namespace BlockedGemm

variable {cfg : VtaConfig} {p : BlockedGemm}

/-- The micro-op count of one thread, as `uop_size` computes it for all. -/
lemma uopSize_eq (h : p.Asserts cfg) : p.uopSize cfg = threadUopCount (p.block / cfg.vtaBatch)
    (p.block / cfg.vtaBlockIn) (p.block / cfg.vtaBlockOut) p.uopCompression * p.virtualThreads := by
  have hout := h.blockOut_dvd
  rw [uopSize, threadUopCount, Nat.mul_div_assoc _ h.blockIn_dvd, Nat.mul_div_assoc _ hout]
  split_ifs <;> rfl

/-- A tile that starts at a loop index lies inside the range of the loop. -/
lemma tile_fits (hblock : 0 < p.block) {n x : ℕ} (hn : p.block ∣ n) (hx : x ∈ upTo n p.block) :
    p.block ∣ x ∧ x + p.block ≤ n := by
  obtain ⟨hdvd, hlt⟩ := (mem_upTo hblock).mp hx
  exact ⟨hdvd, add_le_of_dvd hdvd hn hlt⟩

/-- The channel block of a step lies inside the channels. -/
lemma step_fits (hblock : 0 < p.block) (hvt : 0 < p.virtualThreads)
    (hdvd : p.block * p.virtualThreads ∣ p.channels) {k l : ℕ}
    (hk : k ∈ upTo p.inFeat (p.block * p.virtualThreads))
    (hl : l ∈ upTo (p.block * p.virtualThreads) p.block) :
    p.block ∣ k + l ∧ k + l + p.block ≤ p.channels := by
  obtain ⟨hkdvd, hklt⟩ := (mem_upTo (Nat.mul_pos hblock hvt)).mp hk
  obtain ⟨hldvd, hl'⟩ := tile_fits hblock (Nat.dvd_mul_right _ _) hl
  have hk' := add_le_of_dvd hkdvd hdvd hklt
  exact ⟨Nat.dvd_add ((Nat.dvd_mul_right _ _).trans hkdvd) hldvd, by omega⟩

/-! ### The transfers -/

section Transfers

variable (h : p.Asserts cfg) {W D : ℕ} (src : ℕ → ℕ → ℤ)
include h

lemma wgtInsn_movesTile (hp : PackAsserts W D cfg.vtaBlockOut cfg.vtaBlockIn) {i j k l : ℕ}
    (hj : p.block ∣ j) (hj' : j + p.block ≤ p.channels)
    (hkl : p.block ∣ k + l) (hkl' : k + l + p.block ≤ p.channels) :
    (p.wgtInsn cfg i j k l).MovesTile W D src p.outFeat p.inFeat cfg.vtaBlockOut cfg.vtaBlockIn
      j (k + l) p.block := by
  have hin := h.blockIn_dvd
  have hout := h.blockOut_dvd
  refine MemInsn.load_tile _ hp src cfg.vtaBlockOut_pos cfg.vtaBlockIn_pos (hout.trans hj)
    (hin.trans hkl) hout hin hj' hkl' ?_ rfl rfl rfl
  show (j / cfg.vtaBlockOut * p.channels + k + l) / cfg.vtaBlockIn = _
  rw [Nat.add_assoc]
  exact blockOffset_eq cfg.vtaBlockIn_pos (hin.trans h.block_dvd_channels) _ _

lemma inpInsn_movesTile (hp : PackAsserts W D cfg.vtaBatch cfg.vtaBlockIn) {i k l : ℕ}
    (hi : p.block ∣ i) (hi' : i + p.block ≤ p.batch)
    (hkl : p.block ∣ k + l) (hkl' : k + l + p.block ≤ p.channels) :
    (p.inpInsn cfg i k l).MovesTile W D src p.batch p.inFeat cfg.vtaBatch cfg.vtaBlockIn
      i (k + l) p.block := by
  have hin := h.blockIn_dvd
  have hbat := h.vtaBatch_dvd
  refine MemInsn.load_tile _ hp src cfg.vtaBatch_pos cfg.vtaBlockIn_pos (hbat.trans hi)
    (hin.trans hkl) hbat hin hi' hkl' ?_ rfl rfl rfl
  show (i / cfg.vtaBatch * p.channels + k + l) / cfg.vtaBlockIn = _
  rw [Nat.add_assoc]
  exact blockOffset_eq cfg.vtaBlockIn_pos (hin.trans h.block_dvd_channels) _ _

/-- The bias load and the store address the output tile with the same numbers. -/
lemma outTile_movesTile (m : MemInsn) (hp : PackAsserts W D cfg.vtaBatch cfg.vtaBlockOut) {i j : ℕ}
    (hi : p.block ∣ i) (hi' : i + p.block ≤ p.batch)
    (hj : p.block ∣ j) (hj' : j + p.block ≤ p.channels)
    (hbase : m.dramBase = (i / cfg.vtaBatch * p.outFeat + j) / cfg.vtaBlockOut)
    (hstride : m.xStride = p.outFeat / cfg.vtaBlockOut)
    (hy : m.ySize = p.block / cfg.vtaBatch) (hx : m.xSize = p.block / cfg.vtaBlockOut) :
    m.MovesTile W D src p.batch p.outFeat cfg.vtaBatch cfg.vtaBlockOut i j p.block := by
  have hout := h.blockOut_dvd
  have hbat := h.vtaBatch_dvd
  refine MemInsn.load_tile _ hp src cfg.vtaBatch_pos cfg.vtaBlockOut_pos (hbat.trans hi)
    (hout.trans hj) hbat hout hi' hj' ?_ hstride hy hx
  rw [hbase]
  exact blockOffset_eq cfg.vtaBlockOut_pos (hout.trans h.block_dvd_channels) _ _

end Transfers

/-- **The slots of a step**: the GEMM combines the slots its loads have filled. -/
lemma expand_gemmInsn (hblock : 0 < p.block) (h : p.Asserts cfg)
    (hvt : p.virtualThreads = 1 ∨ p.virtualThreads = 2) {i j k l : ℕ}
    (hl : l ∈ upTo (p.block * p.virtualThreads) p.block) :
    ((p.gemmInsn cfg i j k l).expand (getGEMMUops (p.block / cfg.vtaBatch)
        (p.block / cfg.vtaBlockIn) (p.block / cfg.vtaBlockOut) p.uopCompression
        (decide (p.virtualThreads > 1)))).Perm
      ((tileTriples (p.block / cfg.vtaBatch) (p.block / cfg.vtaBlockIn)
          (p.block / cfg.vtaBlockOut)).map fun (r, c, x) =>
        ⟨(p.accInsn cfg i j).slot r c, (p.inpInsn cfg i k l).slot r x,
          (p.wgtInsn cfg i j k l).slot c x⟩) := by
  have hin := h.blockIn_dvd
  have hvtpos : 0 < p.virtualThreads := by omega
  -- the thread of the step
  obtain ⟨⟨e, rfl⟩, hllt⟩ := (mem_upTo hblock).mp hl
  have he : e < p.virtualThreads := Nat.lt_of_mul_lt_mul_left hllt
  have hthread : e = 0 ∨ e = 1 ∧ decide (p.virtualThreads > 1) = true := by
    rw [decide_eq_true_eq]
    omega
  have hoffset : p.block * e / p.block * p.uopSize cfg / p.virtualThreads
      = e * threadUopCount (p.block / cfg.vtaBatch) (p.block / cfg.vtaBlockIn)
          (p.block / cfg.vtaBlockOut) p.uopCompression := by
    rw [Nat.mul_div_cancel_left _ hblock, uopSize_eq h, ← Nat.mul_assoc,
      Nat.mul_div_cancel _ hvtpos]
  have hinp : p.block * e / cfg.vtaBlockIn * p.block / cfg.vtaBatch
      = e * (p.block / cfg.vtaBatch * (p.block / cfg.vtaBlockIn)) := by
    rw [Nat.mul_comm p.block e, p.sramOffset_eq hin h.vtaBatch_dvd]
  have hwgt : p.block * e / cfg.vtaBlockIn * p.block / cfg.vtaBlockOut
      = e * (p.block / cfg.vtaBlockOut * (p.block / cfg.vtaBlockIn)) := by
    rw [Nat.mul_comm p.block e, p.sramOffset_eq hin h.blockOut_dvd]
  rw [gemmInsn, hoffset]
  refine (expand_getGEMMInsn _ _ _ _ _ _ hthread).trans (List.Perm.of_eq ?_)
  refine List.map_congr_left ?_
  rintro ⟨r, c, x⟩ -
  rw [← hinp, ← hwgt, tripleSlots]
  simp only [MemInsn.slot, accInsn, inpInsn, wgtInsn, get2DLoadStoreInsn, Nat.zero_add]

/-- **The tiling of `blocked_gemm_test`.**  At every step the weight load moves the weight tile, the
input load the input tile, the bias load and the store the output tile, each as packed by
`packBuffer`; and the GEMM visits, once each, the slot triples of an output row block `r`, an
output column block `c` and an inner block `x`: slot `(r, c)` of the output tile, slot `(r, x)` of
the input tile and slot `(c, x)` of the weight tile.  The offsets are exact values, which the ints of
the test have as long as none overflows. -/
theorem tiling_agrees (hblock : 0 < p.block) (h : p.Asserts cfg)
    (hvt : p.virtualThreads = 1 ∨ p.virtualThreads = 2)
    (hdvd : p.virtualThreads * p.block ∣ p.channels) {i j k l : ℕ}
    (hi : i ∈ upTo p.batch p.block) (hj : j ∈ upTo p.outFeat p.block)
    (hk : k ∈ upTo p.inFeat (p.block * p.virtualThreads))
    (hl : l ∈ upTo (p.block * p.virtualThreads) p.block) :
    (∀ W D src, PackAsserts W D cfg.vtaBlockOut cfg.vtaBlockIn →
      (p.wgtInsn cfg i j k l).MovesTile W D src p.outFeat p.inFeat cfg.vtaBlockOut cfg.vtaBlockIn
        j (k + l) p.block) ∧
    (∀ W D src, PackAsserts W D cfg.vtaBatch cfg.vtaBlockIn →
      (p.inpInsn cfg i k l).MovesTile W D src p.batch p.inFeat cfg.vtaBatch cfg.vtaBlockIn
        i (k + l) p.block) ∧
    (∀ W D src, PackAsserts W D cfg.vtaBatch cfg.vtaBlockOut →
      (p.accInsn cfg i j).MovesTile W D src p.batch p.outFeat cfg.vtaBatch cfg.vtaBlockOut
        i j p.block) ∧
    (∀ W D src, PackAsserts W D cfg.vtaBatch cfg.vtaBlockOut →
      (p.storeInsn cfg i j).MovesTile W D src p.batch p.outFeat cfg.vtaBatch cfg.vtaBlockOut
        i j p.block) ∧
    (∀ r c, (p.storeInsn cfg i j).slot r c = (p.accInsn cfg i j).slot r c) ∧
    ((p.gemmInsn cfg i j k l).expand (getGEMMUops (p.block / cfg.vtaBatch)
        (p.block / cfg.vtaBlockIn) (p.block / cfg.vtaBlockOut) p.uopCompression
        (decide (p.virtualThreads > 1)))).Perm
      ((tileTriples (p.block / cfg.vtaBatch) (p.block / cfg.vtaBlockIn)
          (p.block / cfg.vtaBlockOut)).map fun (r, c, x) =>
        ⟨(p.accInsn cfg i j).slot r c, (p.inpInsn cfg i k l).slot r x,
          (p.wgtInsn cfg i j k l).slot c x⟩) := by
  have hvtpos : 0 < p.virtualThreads := by omega
  -- the three tiles lie inside their matrices
  obtain ⟨hrow, hrow'⟩ := tile_fits hblock h.block_dvd_batch hi
  obtain ⟨hcol, hcol'⟩ := tile_fits hblock h.block_dvd_channels hj
  rw [Nat.mul_comm] at hdvd
  obtain ⟨hinner, hinner'⟩ := step_fits hblock hvtpos hdvd hk hl
  refine ⟨?_, ?_, ?_, ?_, ?_, ?_⟩
  · intro W D src hp
    exact wgtInsn_movesTile h src hp hcol hcol' hinner hinner'
  · intro W D src hp
    exact inpInsn_movesTile h src hp hrow hrow' hinner hinner'
  · intro W D src hp
    exact outTile_movesTile h src _ hp hrow hrow' hcol hcol' rfl rfl rfl rfl
  · intro W D src hp
    exact outTile_movesTile h src _ hp hrow hrow' hcol hcol' rfl rfl rfl rfl
  · intro r c
    rfl
  · exact expand_gemmInsn hblock h hvt hl

/-- The last step of `twoThreadGemm`, with bytes packed four to a word. -/
theorem tiling_agrees_twoThread :
    (twoThreadGemm.wgtInsn config16 0 16 0 16).MovesTile 8 32 (fun y x => y - x) 32 32 16 16 16 16
      16 :=
  (@tiling_agrees config16 twoThreadGemm (by decide) (by constructor <;> decide)
    (by decide) (by decide) 0 16 0 16 (by decide) (by decide) (by decide) (by decide)).1 8 32 _
    { width_pos := by decide, width_dvd := by decide, word_pos := by decide
      word_le := by decide, block_mod := by decide }

end BlockedGemm

end ThreeLaSim
